import Mathlib.Data.List.Basic
import Mathlib.Tactic.Common

/-!
# Timers

A timer has an expiry time and waits on it. A new expiry time and a
cancellation abort the waits that have not expired; a wait that has expired has
its handler queued already, and nothing takes it back. `η` names the handlers.
-/

namespace Ian.Lib

inductive WaitState where
  | waiting
  | expired
  | aborted
deriving DecidableEq, Repr

structure Wait (η : Type) where
  handler : η
  state : WaitState
deriving DecidableEq, Repr

structure Timer (η : Type) where
  expiry : Int
  waits : List (Wait η)
deriving DecidableEq, Repr

variable {η : Type}

/-- Seconds in nanoseconds. -/
def seconds (n : Int) : Int := n * 1000000000

/-- Milliseconds in nanoseconds. -/
def milliseconds (n : Int) : Int := n * 1000000

/-- End a wait that has not ended. -/
def Wait.finish (state : WaitState) (w : Wait η) : Wait η :=
  if w.state = .waiting then { w with state } else w

namespace Timer

def init : Timer η := ⟨0, []⟩

def cancel (t : Timer η) : Timer η := { t with waits := t.waits.map (Wait.finish .aborted) }

def expiresFromNow (t : Timer η) (now delay : Int) : Timer η :=
  { t.cancel with expiry := now + delay }

def asyncWait (t : Timer η) (handler : η) : Timer η :=
  { t with waits := t.waits ++ [⟨handler, .waiting⟩] }

/-- The expiry time has come. -/
def expire (t : Timer η) (now : Int) : Option (Timer η) :=
  if t.expiry ≤ now then some { t with waits := t.waits.map (Wait.finish .expired) } else none

/-- Take the `i`th wait, which has ended, off the timer to run its handler. -/
def take (t : Timer η) (i : Nat) : Option (Wait η × Timer η) :=
  match t.waits[i]? with
  | none => none
  | some w =>
    if w.state = .waiting then none else some (w, { t with waits := t.waits.eraseIdx i })

theorem take_spec {t t' : Timer η} {w : Wait η} {i : Nat} (h : t.take i = some (w, t')) :
    w ∈ t.waits ∧ t'.waits.length + 1 = t.waits.length := by
  unfold take at h
  cases hw : t.waits[i]? with
  | none =>
    rw [hw] at h
    cases h
  | some w' =>
    rw [hw] at h
    dsimp only at h
    split at h
    · cases h
    · cases h
      have hlt : i < t.waits.length := (List.getElem?_eq_some_iff.mp hw).1
      refine ⟨List.mem_of_getElem? hw, ?_⟩
      rw [List.length_eraseIdx_of_lt hlt]
      omega

/-- The handler of every wait that has ended can be run. -/
theorem take_of_ended {t : Timer η} {w : Wait η} (hw : w ∈ t.waits) (hended : w.state ≠ .waiting) :
    ∃ i t', t.take i = some (w, t') := by
  obtain ⟨i, hi⟩ := List.mem_iff_getElem?.mp hw
  refine ⟨i, { t with waits := t.waits.eraseIdx i }, ?_⟩
  rw [take, hi]
  exact if_neg hended

theorem take_subset {t t' : Timer η} {w : Wait η} {i : Nat} (h : t.take i = some (w, t')) :
    t'.waits ⊆ t.waits := by
  unfold take at h
  split at h
  · cases h
  split at h
  · cases h
  · cases h
    exact (List.eraseIdx_sublist _ _).subset

theorem expire_spec {t t' : Timer η} {now : Int} (h : t.expire now = some t') :
    t'.waits = t.waits.map (Wait.finish .expired) := by
  unfold expire at h
  split at h
  · cases h
    rfl
  · cases h

/-! ## Live waits -/

/-- Some wait has not been aborted: it expires some day, or has. -/
def live (t : Timer η) : Bool := t.waits.any (·.state != .aborted)

/-- Some wait has expired. -/
def fired (t : Timer η) : Bool := t.waits.any (·.state == .expired)

/-- Only what has expired survives a cancellation. -/
theorem cancel_live (t : Timer η) : t.cancel.live = t.fired := by
  unfold live fired cancel
  dsimp only
  rw [List.any_map]
  congr 1
  funext w
  obtain ⟨handler, state⟩ := w
  cases state <;> rfl

theorem asyncWait_live (t : Timer η) (handler : η) : (t.asyncWait handler).live = true := by
  unfold live asyncWait
  rw [List.any_append]
  exact Bool.or_true _

theorem expire_live {t t' : Timer η} {now : Int} (h : t.expire now = some t') :
    t'.live = t.live := by
  unfold live
  rw [expire_spec h, List.any_map]
  congr 1
  funext w
  obtain ⟨handler, state⟩ := w
  cases state <;> rfl

theorem any_eraseIdx {α : Type} {p : α → Bool} {a : α} (ha : p a = false) {l : List α} {i : Nat}
    (h : l[i]? = some a) : (l.eraseIdx i).any p = l.any p := by
  induction l generalizing i with
  | nil => cases h
  | cons b l ih =>
    cases i with
    | zero =>
      cases h
      rw [List.eraseIdx_cons_zero, List.any_cons, ha, Bool.false_or]
    | succ i => rw [List.eraseIdx_cons_succ, List.any_cons, List.any_cons, ih h]

/-- Running the handler of an aborted wait leaves the live ones. -/
theorem take_live {t t' : Timer η} {w : Wait η} {i : Nat} (h : t.take i = some (w, t'))
    (haborted : w.state = .aborted) : t'.live = t.live := by
  unfold take at h
  cases hw : t.waits[i]? with
  | none =>
    rw [hw] at h
    cases h
  | some w' =>
    rw [hw] at h
    dsimp only at h
    split at h
    · cases h
    · cases h
      exact any_eraseIdx (by rw [haborted]; rfl) hw

/-! ## Expired waits -/

theorem cancel_fired (t : Timer η) : t.cancel.fired = t.fired := by
  unfold fired cancel
  dsimp only
  rw [List.any_map]
  congr 1
  funext w
  obtain ⟨handler, state⟩ := w
  cases state <;> rfl

theorem asyncWait_fired (t : Timer η) (handler : η) : (t.asyncWait handler).fired = t.fired := by
  unfold fired asyncWait
  rw [List.any_append]
  exact Bool.or_false _

theorem take_fired {t t' : Timer η} {w : Wait η} {i : Nat} (h : t.take i = some (w, t'))
    (hfired : t'.fired = true) : t.fired = true := by
  unfold take at h
  cases hw : t.waits[i]? with
  | none =>
    rw [hw] at h
    cases h
  | some w' =>
    rw [hw] at h
    dsimp only at h
    split at h
    · cases h
    · cases h
      obtain ⟨v, hv, hexpired⟩ := List.any_eq_true.mp hfired
      exact List.any_eq_true.mpr ⟨v, List.mem_of_mem_eraseIdx hv, hexpired⟩

theorem take_expiry {t t' : Timer η} {w : Wait η} {i : Nat} (h : t.take i = some (w, t')) :
    t'.expiry = t.expiry ∧ w.state ≠ .waiting := by
  unfold take at h
  split at h
  · cases h
  · split at h
    · cases h
    · cases h
      exact ⟨rfl, ‹_›⟩

theorem expire_due {t t' : Timer η} {now : Int} (h : t.expire now = some t') :
    t'.expiry = t.expiry ∧ t.expiry ≤ now := by
  unfold expire at h
  split at h
  · cases h
    exact ⟨rfl, ‹_›⟩
  · cases h

/-- If no wait has expired, a cancellation takes all of them back. -/
theorem cancel_aborted {t : Timer η} (hfired : t.fired = false) {w : Wait η}
    (hw : w ∈ t.cancel.waits) : w.state = .aborted := by
  obtain ⟨v, hv, rfl⟩ := List.mem_map.mp hw
  have hpending : (v.state == .expired) = false := by
    have := List.any_eq_false.mp hfired v hv
    simpa using this
  obtain ⟨handler, state⟩ := v
  cases state with
  | waiting => rfl
  | expired => cases hpending
  | aborted => rfl

/-! ## The way to a handler

Of a timer with one wait, if time goes on only to the expiry time. -/

/-- A wait has not ended. -/
def Sleeps (t : Timer η) : Prop := ∃ w ∈ t.waits, w.state = .waiting

/-- The time goes on to the expiry time, for which something waits. -/
def Comes (t : Timer η) (now : Int) (duration : Nat) : Prop :=
  t.Sleeps ∧ now < t.expiry ∧ now + duration = t.expiry

/-- How many steps the handler is away: the time has to come, the wait to expire,
and the handler to run. -/
def away (t : Timer η) (now : Int) : Nat :=
  match t.waits with
  | [] => 0
  | w :: _ => if w.state = .waiting then if now < t.expiry then 3 else 2 else 1

theorem away_le (t : Timer η) (now : Int) : t.away now ≤ 3 := by
  unfold away
  split
  · exact Nat.zero_le 3
  · split_ifs <;> decide

theorem away_of_none {t : Timer η} (h : t.waits = []) (now : Int) : t.away now = 0 := by
  rw [away, h]

variable {t t' : Timer η} {w : Wait η} {now : Int}

theorem away_of_one (h : t.waits = [w]) (now : Int) :
    t.away now = if w.state = .waiting then if now < t.expiry then 3 else 2 else 1 := by
  rw [away, h]

/-- A wait that has just begun is the whole way from its handler. -/
theorem asyncWait_away (h : t.waits = []) {delay : Int} (hdelay : 0 < delay) {handler : η} :
    ((t.expiresFromNow now delay).asyncWait handler).away now = 3 := by
  have hone : ((t.expiresFromNow now delay).asyncWait handler).waits = [⟨handler, .waiting⟩] := by
    show t.waits.map _ ++ [_] = _
    rw [h]
    rfl
  rw [away_of_one hone, if_pos rfl]
  exact if_pos (Int.lt_add_of_pos_right now hdelay)

theorem Sleeps.waiting (h : t.waits = [w]) (hsleeps : t.Sleeps) : w.state = .waiting := by
  obtain ⟨v, hmem, hstate⟩ := hsleeps
  rw [h, List.mem_singleton] at hmem
  exact hmem ▸ hstate

theorem comes_away (h : t.waits = [w]) {duration : Nat} (hcomes : t.Comes now duration) :
    t.away (now + duration) < t.away now := by
  obtain ⟨hsleeps, hlater, hthere⟩ := hcomes
  have hstate := hsleeps.waiting h
  rw [away_of_one h, away_of_one h, if_pos hstate, if_pos hstate, if_pos hlater, hthere,
    if_neg (Int.lt_irrefl _)]
  decide

theorem expire_away (h : t.waits = [w]) (hsleeps : t.Sleeps) (hexpire : t.expire now = some t') :
    t'.away now < t.away now := by
  have hstate := hsleeps.waiting h
  have hthen : t'.waits = [⟨w.handler, .expired⟩] := by
    rw [expire_spec hexpire, h, List.map_singleton, Wait.finish, if_pos hstate]
  rw [away_of_one h, away_of_one hthen, if_pos hstate,
    if_neg (Int.not_lt.mpr (expire_due hexpire).2)]
  simp

/-- The handler that runs is that of the wait, and nothing is left. -/
theorem take_one (now : Int) (h : t.waits = [w]) {v : Wait η} {i : Nat}
    (htake : t.take i = some (v, t')) : v = w ∧ t'.waits = [] ∧ t.away now = 1 := by
  obtain ⟨hmem, hlength⟩ := take_spec htake
  rw [h, List.mem_singleton] at hmem
  rw [h, List.length_singleton] at hlength
  refine ⟨hmem, List.length_eq_zero_iff.mp (Nat.succ.inj hlength), ?_⟩
  rw [away_of_one h, if_neg (hmem ▸ (take_expiry htake).2)]

/-- A timer that is waited for goes on: its handler runs, or the wait expires, or
the time comes. -/
theorem onward (h : t.waits = [w]) (now : Int) : (∃ i t', t.take i = some (w, t')) ∨
    (t.Sleeps ∧ ∃ t', t.expire now = some t') ∨ ∃ duration, t.Comes now duration := by
  have hmem : w ∈ t.waits := by
    rw [h]
    exact List.mem_cons_self
  by_cases hstate : w.state = .waiting
  · right
    have hsleeps : t.Sleeps := ⟨w, hmem, hstate⟩
    by_cases hlater : now < t.expiry
    · right
      obtain ⟨duration, hduration⟩ := Int.le.dest (Int.le_of_lt hlater)
      exact ⟨duration, hsleeps, hlater, hduration⟩
    · left
      rw [expire, if_pos (Int.not_lt.mp hlater)]
      exact ⟨hsleeps, _, rfl⟩
  · left
    exact take_of_ended hmem hstate

end Timer

theorem Wait.finish_handler (state : WaitState) (w : Wait η) :
    (w.finish state).handler = w.handler := by
  unfold finish
  split <;> rfl

end Ian.Lib
