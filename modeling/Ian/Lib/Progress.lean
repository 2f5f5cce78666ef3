import Ian.Lib.Machine
import Mathlib

/-!
# Runs that end

An event machine winds down, as long as its events meet a condition, if every
step lowers a measure and nothing but a state that is done is stuck. Then every
run ends (`WindsDown.endsWithin`), wherever the choice of events leads it.
-/

namespace Ian.Lib

variable {σ ε : Type}

/-- Every run from `s` whose steps meet the condition has at most `n` steps, and
where it cannot go on it is done. -/
def EndsWithin (step : σ → ε → Option σ) (C : σ → ε → Prop) (Done : σ → Prop) (s : σ) (n : Nat) :
    Prop :=
  ∀ es s', AllSteps step C s es → runEvents step s es = some s' →
    es.length ≤ n ∧ ((∀ e, C s' e → step s' e = none) → Done s')

theorem EndsWithin.mono {step : σ → ε → Option σ} {C : σ → ε → Prop} {Done : σ → Prop} {s : σ}
    {n m : Nat} (h : EndsWithin step C Done s n) (hle : n ≤ m) : EndsWithin step C Done s m :=
  fun es s' hC hrun => ⟨Nat.le_trans (h es s' hC hrun).1 hle, (h es s' hC hrun).2⟩

/-- Steps that meet the condition keep `I` and lower `μ`, and there is one
unless the state is done. -/
structure WindsDown (step : σ → ε → Option σ) (C : σ → ε → Prop) (I Done : σ → Prop)
    (μ : σ → Nat) : Prop where
  keeps : ∀ s e s', I s → C s e → step s e = some s' → I s'
  lowers : ∀ s e s', I s → C s e → step s e = some s' → μ s' < μ s
  goesOn : ∀ s, I s → ¬Done s → ∃ e s', C s e ∧ step s e = some s'

variable {step : σ → ε → Option σ} {C : σ → ε → Prop} {I Done : σ → Prop} {μ : σ → Nat}

theorem WindsDown.length_le (h : WindsDown step C I Done μ) {s s' : σ} {es : List ε} (hs : I s)
    (hC : AllSteps step C s es) (hrun : runEvents step s es = some s') :
    es.length + μ s' ≤ μ s := by
  induction es generalizing s with
  | nil =>
    cases hrun
    exact Nat.le_of_eq (Nat.zero_add _)
  | cons e es ih =>
    obtain ⟨hCe, hCes⟩ := hC
    obtain ⟨t, ht, hrest⟩ := Option.bind_eq_some_iff.mp hrun
    have hlower := h.lowers s e t hs hCe ht
    have hle := ih (h.keeps s e t hs hCe ht) (hCes t ht) hrest
    rw [List.length_cons]
    omega

theorem WindsDown.endsWithin (h : WindsDown step C I Done μ) {s : σ} (hs : I s) :
    EndsWithin step C Done s (μ s) := by
  intro es s' hC hrun
  refine ⟨Nat.le_trans (Nat.le_add_right _ _) (h.length_le hs hC hrun), fun hstuck => ?_⟩
  have hI : I s' := run_invariant_of h.keeps hs hC hrun
  by_contra hnot
  obtain ⟨e, t, hCe, ht⟩ := h.goesOn s' hI hnot
  cases (hstuck e hCe).symm.trans ht

/-! ## Rations

Some events may undo what the others bring about, as long as there are only so
many of them. -/

/-- The machine with the number of lucky events that can still happen. -/
def rationed (step : σ → ε → Option σ) (lucky : ε → Bool) (s : σ × Nat) (e : ε) :
    Option (σ × Nat) :=
  if lucky e && s.2 == 0 then none
  else (step s.1 e).map fun s' => (s', s.2 - (lucky e).toNat)

theorem rationed_cases {lucky : ε → Bool} {s s' : σ × Nat} {e : ε}
    (h : rationed step lucky s e = some s') :
    step s.1 e = some s'.1 ∧ s'.2 + (lucky e).toNat = s.2 := by
  unfold rationed at h
  split at h
  · cases h
  next hration =>
  obtain ⟨t, ht, rfl⟩ := Option.map_eq_some_iff.mp h
  refine ⟨ht, Nat.sub_add_cancel ?_⟩
  cases hlucky : lucky e with
  | false => exact Nat.zero_le _
  | true => exact Nat.pos_of_ne_zero fun hzero => hration (by simp [hlucky, hzero])

/-- A lucky event may raise the measure, by less than `w`. -/
theorem WindsDown.rationed {lucky : ε → Bool} (w : Nat)
    (hkeeps : ∀ s e s', I s → C s e → step s e = some s' →
      I s' ∧ μ s' + 1 ≤ μ s + w * (lucky e).toNat)
    (hgoesOn : ∀ s, I s → ¬Done s → ∃ e s', C s e ∧ lucky e = false ∧ step s e = some s') :
    WindsDown (rationed step lucky) (fun s e => C s.1 e) (fun s => I s.1) (fun s => Done s.1)
      (fun s => μ s.1 + w * s.2) where
  keeps s e s' hs hC h := (hkeeps s.1 e s'.1 hs hC (rationed_cases h).1).1
  lowers s e s' hs hC h := by
    obtain ⟨hstep, hration⟩ := rationed_cases h
    have hlower := (hkeeps s.1 e s'.1 hs hC hstep).2
    rw [← hration, Nat.mul_add]
    omega
  goesOn s hs hdone := by
    obtain ⟨e, s', hC, hunlucky, hstep⟩ := hgoesOn s.1 hs hdone
    refine ⟨e, (s', s.2), hC, ?_⟩
    rw [Lib.rationed, hunlucky, hstep]
    rfl

/-! ## Measures

A measure is often a sum over the parts of a state, of which a step replaces
one. -/

variable {α : Type}

theorem sum_map_set {l : List α} {i : Nat} {a : α} (ha : l[i]? = some a) (f : α → Nat) (b : α) :
    ((l.set i b).map f).sum + f a = (l.map f).sum + f b := by
  induction l generalizing i with
  | nil => cases ha
  | cons c l ih =>
    cases i with
    | zero =>
      cases ha
      simp only [List.set_cons_zero, List.map_cons, List.sum_cons]
      omega
    | succ i =>
      have hrest := ih ha
      simp only [List.set_cons_succ, List.map_cons, List.sum_cons]
      omega

theorem map_set_of_eq {β : Type} {l : List α} {i : Nat} {a b : α} {f : α → β}
    (ha : l[i]? = some a) (h : f b = f a) : (l.set i b).map f = l.map f := by
  induction l generalizing i with
  | nil => cases ha
  | cons c l ih =>
    cases i with
    | zero =>
      cases ha
      rw [List.set_cons_zero, List.map_cons, List.map_cons, h]
    | succ i => rw [List.set_cons_succ, List.map_cons, List.map_cons, ih ha]

end Ian.Lib
