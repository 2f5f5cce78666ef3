import Mathlib.Tactic.Common

/-!
# Fuel-bounded runs of stateful code

A function of the source that reads and writes an object and may throw is a
`Run σ ε α`: from the object's state to an outcome and the state it leaves. A
loop of the source is `loop`, which spends one unit of fuel per iteration, so
code that loops for ever is the code whose outcome is `outOfFuel` at every
amount of fuel. The state is kept in all three outcomes.

* `Settles`: enough fuel gives this outcome.
* `Extends`: more fuel changes nothing about a run that finishes.
* `Returns`, `Throws`: what holds of a value, or an exception, and of the state
  it leaves.
* `Sim`: two runs from related states end alike and in related states. The
  rules `Sim.bind`, `Sim.loop` and `Sim.ite` follow the shape of the code, so a
  relation kept by the primitive operations of a program is kept by the
  program.
-/

namespace Ian.Lib

/-- How a run ends: with a value, with an exception, or stopped because a loop
spent all its fuel. -/
inductive Outcome (ε α : Type) where
  | ok (a : α)
  | throw (e : ε)
  | outOfFuel
deriving DecidableEq, Repr

/-- A stateful computation that can throw and can run out of fuel. -/
structure Run (σ ε α : Type) where
  run : σ → Outcome ε α × σ

/-- What a loop body decides: go round again, or leave the loop. -/
inductive Iter (β α : Type) where
  | again (b : β)
  | done (a : α)

namespace Run

variable {σ τ ε α β : Type}

protected def pure (a : α) : Run σ ε α := ⟨fun s => (.ok a, s)⟩

protected def bind (m : Run σ ε α) (f : α → Run σ ε β) : Run σ ε β :=
  ⟨fun s =>
    match m.run s with
    | (.ok a, s') => (f a).run s'
    | (.throw e, s') => (.throw e, s')
    | (.outOfFuel, s') => (.outOfFuel, s')⟩

instance : Monad (Run σ ε) where
  pure := Run.pure
  bind := Run.bind

/-- Throw `e`, leaving the state as it is. -/
def raise (e : ε) : Run σ ε α := ⟨fun s => (.throw e, s)⟩

/-- Read a value off the state. -/
def gets (f : σ → α) : Run σ ε α := ⟨fun s => (.ok (f s), s)⟩

/-- Update the state. -/
def modify (f : σ → σ) : Run σ ε Unit := ⟨fun s => (.ok (), f s)⟩

/-- Run `body` from `b` until it is done, for at most `fuel` iterations. -/
def loop (body : β → Run σ ε (Iter β α)) : Nat → β → Run σ ε α
  | 0, _ => ⟨fun s => (.outOfFuel, s)⟩
  | fuel + 1, b => do
    match ← body b with
    | .again b' => loop body fuel b'
    | .done a => pure a

@[simp] theorem run_pure (a : α) (s : σ) : (pure a : Run σ ε α).run s = (.ok a, s) := rfl

@[simp] theorem run_raise (e : ε) (s : σ) : (raise e : Run σ ε α).run s = (.throw e, s) := rfl

@[simp] theorem run_gets (f : σ → α) (s : σ) :
    (gets f : Run σ ε α).run s = (.ok (f s), s) := rfl

theorem run_bind (m : Run σ ε α) (f : α → Run σ ε β) (s : σ) :
    (m >>= f).run s = match m.run s with
      | (.ok a, s') => (f a).run s'
      | (.throw e, s') => (.throw e, s')
      | (.outOfFuel, s') => (.outOfFuel, s') := rfl

theorem bind_ok {m : Run σ ε α} {f : α → Run σ ε β} {s s' : σ} {a : α}
    (h : m.run s = (.ok a, s')) : (m >>= f).run s = (f a).run s' := by
  rw [run_bind, h]

theorem bind_throw {m : Run σ ε α} {f : α → Run σ ε β} {s s' : σ} {e : ε}
    (h : m.run s = (.throw e, s')) : (m >>= f).run s = (.throw e, s') := by
  rw [run_bind, h]

theorem bind_outOfFuel {m : Run σ ε α} {f : α → Run σ ε β} {s s' : σ}
    (h : m.run s = (.outOfFuel, s')) : (m >>= f).run s = (.outOfFuel, s') := by
  rw [run_bind, h]

theorem pure_bind (a : α) (f : α → Run σ ε β) : pure a >>= f = f a := rfl

theorem bind_assoc {γ : Type} (m : Run σ ε α) (f : α → Run σ ε β) (g : β → Run σ ε γ) :
    m >>= f >>= g = m >>= fun a => f a >>= g := by
  show (⟨_⟩ : Run σ ε γ) = ⟨_⟩
  congr 1
  funext s
  show (m >>= f >>= g).run s = (m >>= fun a => f a >>= g).run s
  obtain ⟨o, s', hm⟩ : ∃ o s', m.run s = (o, s') := ⟨_, _, rfl⟩
  cases o with
  | ok a => rw [bind_ok hm, run_bind, bind_ok hm, run_bind]
  | throw e => rw [bind_throw hm, bind_throw (bind_throw hm)]
  | outOfFuel => rw [bind_outOfFuel hm, bind_outOfFuel (bind_outOfFuel hm)]

/-- What a loop does after a round. -/
def loopAfter (body : β → Run σ ε (Iter β α)) (fuel : Nat) : Iter β α → Run σ ε α
  | .again b => loop body fuel b
  | .done a => pure a

theorem loop_succ (body : β → Run σ ε (Iter β α)) (fuel : Nat) (b : β) :
    loop body (fuel + 1) b = body b >>= loopAfter body fuel := by
  rw [loop]
  rfl

theorem loop_again {body : β → Run σ ε (Iter β α)} {fuel : Nat} {b b' : β} {s s' : σ}
    (h : (body b).run s = (.ok (.again b'), s')) :
    (loop body (fuel + 1) b).run s = (loop body fuel b').run s' := by
  rw [loop, bind_ok h]

theorem loop_done {body : β → Run σ ε (Iter β α)} {fuel : Nat} {b : β} {a : α} {s s' : σ}
    (h : (body b).run s = (.ok (.done a), s')) :
    (loop body (fuel + 1) b).run s = (.ok a, s') := by
  rw [loop, bind_ok h, run_pure]

end Run

/-! ## Outcomes for enough fuel -/

/-- From some amount of fuel on, the outcome is `o`. For `o = outOfFuel` this
says that the code never finishes. -/
def Settles {ε α : Type} (run : Nat → Outcome ε α) (o : Outcome ε α) : Prop :=
  ∃ enough, ∀ fuel, enough ≤ fuel → run fuel = o

theorem Settles.unique {ε α : Type} {run : Nat → Outcome ε α} {o o' : Outcome ε α}
    (h : Settles run o) (h' : Settles run o') : o = o' := by
  obtain ⟨n, hn⟩ := h
  obtain ⟨n', hn'⟩ := h'
  rw [← hn (max n n') (Nat.le_max_left n n'), hn' (max n n') (Nat.le_max_right n n')]

theorem Settles.congr {ε α : Type} {run run' : Nat → Outcome ε α} {o : Outcome ε α} (bound : Nat)
    (h : ∀ fuel, bound ≤ fuel → run fuel = run' fuel) : Settles run o ↔ Settles run' o := by
  constructor
  · rintro ⟨n, hn⟩
    refine ⟨max n bound, fun fuel hf => ?_⟩
    rw [← h fuel (by omega), hn fuel (by omega)]
  · rintro ⟨n, hn⟩
    refine ⟨max n bound, fun fuel hf => ?_⟩
    rw [h fuel (by omega), hn fuel (by omega)]

/-! ## More fuel -/

/-- Where `m` finishes, `n` does the same. -/
def Extends {σ ε α : Type} (m n : Run σ ε α) : Prop :=
  ∀ s, (m.run s).1 ≠ .outOfFuel → n.run s = m.run s

section

variable {σ ε α β : Type}

theorem Extends.refl (m : Run σ ε α) : Extends m m := fun _ _ => rfl

theorem Extends.bind {m n : Run σ ε α} {f g : α → Run σ ε β} (h : Extends m n)
    (hf : ∀ a, Extends (f a) (g a)) : Extends (m >>= f) (n >>= g) := by
  intro s hs
  obtain ⟨o, s', hm⟩ : ∃ o s', m.run s = (o, s') := ⟨_, _, rfl⟩
  have hn := h s
  rw [hm] at hn
  cases o with
  | ok a =>
    rw [Run.bind_ok hm] at hs ⊢
    rw [Run.bind_ok (hn nofun)]
    exact hf a s' hs
  | throw e => rw [Run.bind_throw hm, Run.bind_throw (hn nofun)]
  | outOfFuel =>
    rw [Run.bind_outOfFuel hm] at hs
    exact absurd rfl hs

theorem Extends.ite {c : Prop} [Decidable c] {m m' n n' : Run σ ε α} (h : Extends m n)
    (h' : Extends m' n') : Extends (if c then m else m') (if c then n else n') := by
  split
  · exact h
  · exact h'

theorem Extends.loop {body body' : β → Run σ ε (Iter β α)}
    (h : ∀ b, Extends (body b) (body' b)) {fuel fuel' : Nat} (hfuel : fuel ≤ fuel') (b : β) :
    Extends (Run.loop body fuel b) (Run.loop body' fuel' b) := by
  induction fuel generalizing fuel' b with
  | zero => exact fun s hs => absurd rfl hs
  | succ fuel ih =>
    obtain ⟨more, rfl⟩ : ∃ more, fuel' = more + 1 := ⟨fuel' - 1, by omega⟩
    refine Extends.bind (h b) fun i => ?_
    cases i with
    | again b' => exact ih (Nat.le_of_succ_le_succ hfuel) b'
    | done a => exact Extends.refl _

end

/-- A run that finishes, and does the same with more fuel, settles. -/
theorem Settles.of_extends {σ ε α : Type} {m : Nat → Run σ ε α} {s : σ}
    (h : ∀ fuel fuel', fuel ≤ fuel' → Extends (m fuel) (m fuel')) (fuel : Nat)
    (hs : ((m fuel).run s).1 ≠ .outOfFuel) :
    Settles (fun fuel => ((m fuel).run s).1) ((m fuel).run s).1 :=
  ⟨fuel, fun fuel' hfuel => congrArg Prod.fst (h fuel fuel' hfuel s hs)⟩

/-! ## The states runs end in -/

section

variable {σ ε α β : Type} {Q : ε → σ → Prop} {P : α → σ → Prop} {P' : β → σ → Prop}

/-- `P` holds of every value a run ends with and the state it leaves. -/
def Returns (P : α → σ → Prop) (m : Run σ ε α) : Prop := ∀ s a s', m.run s = (.ok a, s') → P a s'

/-- `Q` holds of every exception a run ends with and the state it leaves. -/
def Throws (Q : ε → σ → Prop) (m : Run σ ε α) : Prop := ∀ s e s', m.run s = (.throw e, s') → Q e s'

/-- How a sequence ends with a value. -/
theorem bind_eq_ok {m : Run σ ε α} {f : α → Run σ ε β} {s s' : σ} {b : β}
    (h : (m >>= f).run s = (.ok b, s')) :
    ∃ a mid, m.run s = (.ok a, mid) ∧ (f a).run mid = (.ok b, s') := by
  obtain ⟨o, mid, hm⟩ : ∃ o mid, m.run s = (o, mid) := ⟨_, _, rfl⟩
  cases o with
  | ok a => exact ⟨a, mid, hm, (Run.bind_ok hm).symm.trans h⟩
  | throw e => cases (Run.bind_throw hm).symm.trans h
  | outOfFuel => cases (Run.bind_outOfFuel hm).symm.trans h

/-- How a sequence ends with an exception. -/
theorem bind_eq_throw {m : Run σ ε α} {f : α → Run σ ε β} {s s' : σ} {e : ε}
    (h : (m >>= f).run s = (.throw e, s')) :
    m.run s = (.throw e, s') ∨
      ∃ a mid, m.run s = (.ok a, mid) ∧ (f a).run mid = (.throw e, s') := by
  obtain ⟨o, mid, hm⟩ : ∃ o mid, m.run s = (o, mid) := ⟨_, _, rfl⟩
  cases o with
  | ok a => exact Or.inr ⟨a, mid, hm, (Run.bind_ok hm).symm.trans h⟩
  | throw e' =>
    cases (Run.bind_throw hm).symm.trans h
    exact Or.inl hm
  | outOfFuel => cases (Run.bind_outOfFuel hm).symm.trans h

theorem Returns.bind {m : Run σ ε α} {f : α → Run σ ε β} (hf : ∀ a, Returns P' (f a)) :
    Returns P' (m >>= f) := by
  intro s b s' h
  obtain ⟨a, mid, _, hfa⟩ := bind_eq_ok h
  exact hf a mid b s' hfa

theorem Returns.ite {c : Prop} [Decidable c] {m n : Run σ ε α} (h : Returns P m)
    (h' : Returns P n) : Returns P (if c then m else n) := by
  split
  · exact h
  · exact h'

/-- A loop ends as its last round does. -/
theorem Returns.loop {body : β → Run σ ε (Iter β α)}
    (h : ∀ b s a s', (body b).run s = (.ok (.done a), s') → P a s') (fuel : Nat) (b : β) :
    Returns P (Run.loop body fuel b) := by
  induction fuel generalizing b with
  | zero => exact fun s a s' hrun => nomatch hrun
  | succ fuel ih =>
    intro s a s' hrun
    rw [Run.loop_succ] at hrun
    obtain ⟨i, mid, hbody, hrest⟩ := bind_eq_ok hrun
    cases i with
    | again b' => exact ih b' mid a s' hrest
    | done a' =>
      cases hrest
      exact h b s _ _ hbody

theorem Throws.pure (a : α) : Throws Q (pure a : Run σ ε α) := fun _ _ _ h => nomatch h

theorem Throws.gets (f : σ → α) : Throws Q (Run.gets f : Run σ ε α) := fun _ _ _ h => nomatch h

theorem Throws.modify (f : σ → σ) : Throws Q (Run.modify f : Run σ ε Unit) :=
  fun _ _ _ h => nomatch h

theorem Throws.bind {m : Run σ ε α} {f : α → Run σ ε β} (hm : Throws Q m)
    (hf : ∀ a, Throws Q (f a)) : Throws Q (m >>= f) := by
  intro s e s' h
  rcases bind_eq_throw h with h | ⟨a, mid, _, h⟩
  · exact hm s e s' h
  · exact hf a mid e s' h

theorem Throws.ite {c : Prop} [Decidable c] {m n : Run σ ε α} (h : Throws Q m)
    (h' : Throws Q n) : Throws Q (if c then m else n) := by
  split
  · exact h
  · exact h'

theorem Throws.loop {body : β → Run σ ε (Iter β α)} (h : ∀ b, Throws Q (body b)) (fuel : Nat)
    (b : β) : Throws Q (Run.loop body fuel b) := by
  induction fuel generalizing b with
  | zero => exact fun s e s' hrun => nomatch hrun
  | succ fuel ih =>
    rw [Run.loop_succ]
    refine Throws.bind (h b) fun i => ?_
    cases i with
    | again b' => exact ih b'
    | done a => exact Throws.pure a

end

/-! ## Simulation -/

/-- Runs `m` and `n` from states related by `R` and `P` end with the same
outcome, in states related by `R`; when they end with a value `a`, the states
are related by `Q a` as well. -/
def SimPost {σ τ ε α : Type} (R P : σ → τ → Prop) (Q : α → σ → τ → Prop) (m : Run σ ε α)
    (n : Run τ ε α) : Prop :=
  ∀ s t, R s t → P s t → (m.run s).1 = (n.run t).1 ∧ R (m.run s).2 (n.run t).2 ∧
    ∀ a, (m.run s).1 = .ok a → Q a (m.run s).2 (n.run t).2

/-- Runs `m` and `n` from related states end with the same outcome, in related
states. -/
def Sim {σ τ ε α : Type} (R : σ → τ → Prop) (m : Run σ ε α) (n : Run τ ε α) : Prop :=
  ∀ s t, R s t → (m.run s).1 = (n.run t).1 ∧ R (m.run s).2 (n.run t).2

section

variable {σ τ ε α β : Type} {R P : σ → τ → Prop}

theorem SimPost.sim {Q : α → σ → τ → Prop} {m : Run σ ε α} {n : Run τ ε α}
    (h : SimPost R P Q m n) (hP : ∀ s t, R s t → P s t) : Sim R m n := by
  intro s t hst
  obtain ⟨ho, hR, _⟩ := h s t hst (hP s t hst)
  exact ⟨ho, hR⟩

theorem Sim.post {m : Run σ ε α} {n : Run τ ε α} (h : Sim R m n) :
    SimPost R P (fun _ _ _ => True) m n := by
  intro s t hst _
  obtain ⟨ho, hR⟩ := h s t hst
  exact ⟨ho, hR, fun _ _ => trivial⟩

theorem SimPost.pure {Q : α → σ → τ → Prop} {a : α} (h : ∀ s t, R s t → P s t → Q a s t) :
    SimPost R P Q (pure a : Run σ ε α) (pure a : Run τ ε α) := by
  intro s t hst hP
  refine ⟨rfl, hst, fun b hb => ?_⟩
  cases hb
  exact h s t hst hP

theorem SimPost.bind {Q : α → σ → τ → Prop} {Q' : β → σ → τ → Prop} {m : Run σ ε α}
    {n : Run τ ε α} {f : α → Run σ ε β} {g : α → Run τ ε β} (h : SimPost R P Q m n)
    (hf : ∀ a, SimPost R (Q a) Q' (f a) (g a)) : SimPost R P Q' (m >>= f) (n >>= g) := by
  intro s t hst hP
  obtain ⟨ho, hR, hQ⟩ := h s t hst hP
  obtain ⟨o, s', hm⟩ : ∃ o s', m.run s = (o, s') := ⟨_, _, rfl⟩
  obtain ⟨o', t', hn⟩ : ∃ o' t', n.run t = (o', t') := ⟨_, _, rfl⟩
  rw [hm, hn] at ho hR hQ
  cases ho
  cases o with
  | ok a =>
    rw [Run.bind_ok hm, Run.bind_ok hn]
    exact hf a s' t' hR (hQ a rfl)
  | throw e =>
    rw [Run.bind_throw hm, Run.bind_throw hn]
    exact ⟨rfl, hR, fun _ h => nomatch h⟩
  | outOfFuel =>
    rw [Run.bind_outOfFuel hm, Run.bind_outOfFuel hn]
    exact ⟨rfl, hR, fun _ h => nomatch h⟩

/-- The loop rule: `P b` is the loop invariant at loop value `b`. -/
theorem SimPost.loop {P : β → σ → τ → Prop} {Q : α → σ → τ → Prop}
    {body : β → Run σ ε (Iter β α)} {body' : β → Run τ ε (Iter β α)}
    (h : ∀ b, SimPost R (P b)
      (fun i s t => match i with | .again b' => P b' s t | .done a => Q a s t) (body b) (body' b))
    (fuel : Nat) (b : β) :
    SimPost R (P b) Q (Run.loop body fuel b) (Run.loop body' fuel b) := by
  induction fuel generalizing b with
  | zero => exact fun s t hst _ => ⟨rfl, hst, fun _ h => nomatch h⟩
  | succ fuel ih =>
    refine SimPost.bind (h b) fun i => ?_
    cases i with
    | again b' => exact ih b'
    | done a => exact SimPost.pure fun _ _ _ hQ => hQ

/-- Relations that are kept can be chained. -/
theorem Sim.trans {υ : Type} {S : τ → υ → Prop} {m : Run σ ε α} {n : Run τ ε α} {o : Run υ ε α}
    (h : Sim R m n) (h' : Sim S n o) : Sim (fun s u => ∃ t, R s t ∧ S t u) m o := by
  rintro s u ⟨t, hst, htu⟩
  obtain ⟨hout, hR⟩ := h s t hst
  obtain ⟨hout', hS⟩ := h' t u htu
  exact ⟨hout.trans hout', _, hR, hS⟩

theorem Sim.pure (a : α) : Sim R (pure a : Run σ ε α) (pure a : Run τ ε α) :=
  fun _ _ h => ⟨rfl, h⟩

theorem Sim.raise (e : ε) : Sim R (Run.raise e : Run σ ε α) (Run.raise e) :=
  fun _ _ h => ⟨rfl, h⟩

theorem Sim.gets {f : σ → α} {g : τ → α} (h : ∀ s t, R s t → f s = g t) :
    Sim R (Run.gets f : Run σ ε α) (Run.gets g) :=
  fun s t hst => ⟨congrArg Outcome.ok (h s t hst), hst⟩

theorem Sim.modify {f : σ → σ} {g : τ → τ} (h : ∀ s t, R s t → R (f s) (g t)) :
    Sim R (Run.modify f : Run σ ε Unit) (Run.modify g) :=
  fun s t hst => ⟨rfl, h s t hst⟩

theorem Sim.bind {m : Run σ ε α} {n : Run τ ε α} {f : α → Run σ ε β} {g : α → Run τ ε β}
    (h : Sim R m n) (hf : ∀ a, Sim R (f a) (g a)) : Sim R (m >>= f) (n >>= g) :=
  ((h.post (P := fun _ _ => True)).bind fun a => (hf a).post).sim fun _ _ _ => trivial

theorem Sim.ite {c : Prop} [Decidable c] {m m' : Run σ ε α} {n n' : Run τ ε α} (h : Sim R m n)
    (h' : Sim R m' n') : Sim R (if c then m else m') (if c then n else n') := by
  split
  · exact h
  · exact h'

theorem Sim.loop {body : β → Run σ ε (Iter β α)} {body' : β → Run τ ε (Iter β α)}
    (h : ∀ b, Sim R (body b) (body' b)) (fuel : Nat) (b : β) :
    Sim R (Run.loop body fuel b) (Run.loop body' fuel b) := by
  refine (SimPost.loop (P := fun _ _ _ => True) (Q := fun _ _ _ => True) (fun b => ?_) fuel b).sim
    fun _ _ _ => trivial
  intro s t hst _
  obtain ⟨ho, hR⟩ := h b s t hst
  exact ⟨ho, hR, fun i _ => by cases i <;> trivial⟩

end

end Ian.Lib
