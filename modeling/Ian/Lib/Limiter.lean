import Ian.Lib.Machine
import Mathlib.Algebra.BigOperators.Group.List.Basic
import Mathlib.Algebra.Ring.Nat
import Mathlib.Data.List.Basic

/-!
# Rate limiters that reset late

A limiter counts messages and bytes from a starting time on. Only when a
counter goes above its limit does it look at the clock: later than a window
after its start it begins anew, and the message that made it do so is not
counted; else it refuses the message. The counting periods are thus not aligned
with anything, but two of them start more than a window apart.

Main results, for arrivals in the order of time:
  * `conforming_run`: a sender that keeps to the limits in every window is never
    refused.
  * `window_within`: in every window what is let through is at most twice the
    limit and one message.
-/

namespace Ian.Lib

structure Arrival where
  time : Int
  size : Nat
deriving DecidableEq, Repr

structure Limits where
  window : Int
  messages : Nat
  bytes : Nat
deriving DecidableEq, Repr

structure Limiter where
  start : Int
  messages : Nat
  bytes : Nat
deriving DecidableEq, Repr

/-- The arrivals of the closed window that starts at `t`. -/
def Limits.inWindow (limits : Limits) (t : Int) (as : List Arrival) : List Arrival :=
  as.filter fun a => decide (t ≤ a.time) && decide (a.time ≤ t + limits.window)

/-- The weight of some arrivals. -/
def total (w : Arrival → Nat) (as : List Arrival) : Nat := (as.map w).sum

/-- Arrivals in the order of time. -/
def InOrder (as : List Arrival) : Prop := as.Pairwise fun a b => a.time ≤ b.time

/-- At most `k`, not counting one of the arrivals. -/
def Within (w : Arrival → Nat) (k : Nat) (as : List Arrival) : Prop :=
  total w as ≤ k ∨ ∃ a ∈ as, total w as ≤ k + w a

namespace Limiter

def init (now : Int) : Limiter := ⟨now, 0, 0⟩

/-- A message arrives; `none` if it is refused. -/
def arrive (limits : Limits) (l : Limiter) (a : Arrival) : Option Limiter :=
  if l.messages + 1 > limits.messages || l.bytes + a.size > limits.bytes then
    if a.time - l.start > limits.window then some (init a.time) else none
  else some { l with messages := l.messages + 1, bytes := l.bytes + a.size }

/-- The limiter has let `before` and `since` through and counts `since`. Weights
are such that what is within both limits weighs at most `k`. -/
structure Epoch (limits : Limits) (w : Arrival → Nat) (k : Nat) (before since : List Arrival)
    (l : Limiter) : Prop where
  messages : l.messages = since.length
  bytes : l.bytes = total Arrival.size since
  counted : l.messages ≤ limits.messages ∧ l.bytes ≤ limits.bytes
  afterStart : ∀ a ∈ since, l.start ≤ a.time
  untilStart : ∀ a ∈ before, a.time ≤ l.start
  past : ∀ t, Within w (2 * k) (limits.inWindow t before)
  lately : ∀ t, l.start ≤ t + limits.window → Within w k (limits.inWindow t before)

end Limiter

namespace LimiterLemmas

open Limiter

variable {limits : Limits} {w : Arrival → Nat} {k : Nat} {before since as : List Arrival}
  {l l' : Limiter} {a : Arrival}

/-! ## Weights and windows -/

theorem total_append (w : Arrival → Nat) (as bs : List Arrival) :
    total w (as ++ bs) = total w as + total w bs := by
  unfold total
  rw [List.map_append, List.sum_append]

theorem total_one (as : List Arrival) : total (fun _ => 1) as = as.length := by
  induction as with
  | nil => rfl
  | cons a as ih =>
    unfold total at ih ⊢
    rw [List.map_cons, List.sum_cons, ih, List.length_cons, Nat.add_comm]

theorem total_inWindow_le (limits : Limits) (w : Arrival → Nat) (t : Int) (as : List Arrival) :
    total w (limits.inWindow t as) ≤ total w as := by
  induction as with
  | nil => exact Nat.le_refl 0
  | cons a as ih =>
    unfold total Limits.inWindow at ih ⊢
    rw [List.filter_cons]
    split
    · rw [List.map_cons, List.map_cons, List.sum_cons, List.sum_cons]
      omega
    · rw [List.map_cons, List.sum_cons]
      omega

theorem inWindow_append (t : Int) (as bs : List Arrival) :
    limits.inWindow t (as ++ bs) = limits.inWindow t as ++ limits.inWindow t bs :=
  List.filter_append ..

theorem inWindow_eq_nil {t : Int} (h : ∀ a ∈ as, a.time < t ∨ t + limits.window < a.time) :
    limits.inWindow t as = [] := by
  refine List.filter_eq_nil_iff.mpr fun a ha => ?_
  rw [Bool.and_eq_true, decide_eq_true_eq, decide_eq_true_eq]
  rcases h a ha with hearly | hlate
  · omega
  · omega

theorem inWindow_eq_self {t : Int} (h : ∀ a ∈ as, t ≤ a.time ∧ a.time ≤ t + limits.window) :
    limits.inWindow t as = as := by
  refine List.filter_eq_self.mpr fun a ha => ?_
  rw [Bool.and_eq_true, decide_eq_true_eq, decide_eq_true_eq]
  exact h a ha

theorem Within.mono {k' : Nat} (h : Within w k as) (hk : k ≤ k') : Within w k' as := by
  rcases h with hle | ⟨a, ha, hle⟩
  · exact Or.inl (Nat.le_trans hle hk)
  · exact Or.inr ⟨a, ha, Nat.le_trans hle (Nat.add_le_add_right hk _)⟩

theorem Within.append {k' : Nat} {bs : List Arrival} (h : Within w k as) (hbs : total w bs ≤ k') :
    Within w (k + k') (as ++ bs) := by
  rcases h with hle | ⟨a, ha, hle⟩
  · refine Or.inl ?_
    rw [total_append]
    omega
  · refine Or.inr ⟨a, List.mem_append_left bs ha, ?_⟩
    rw [total_append]
    omega

/-! ## One arrival -/

theorem arrive_cases (h : l.arrive limits a = some l') :
    (l' = { l with messages := l.messages + 1, bytes := l.bytes + a.size } ∧
      l'.messages ≤ limits.messages ∧ l'.bytes ≤ limits.bytes) ∨
    (limits.window < a.time - l.start ∧ l' = init a.time) := by
  unfold arrive at h
  split at h
  · split at h
    · next hlate =>
      cases h
      exact Or.inr ⟨hlate, rfl⟩
    · cases h
  · next hover =>
    cases h
    rw [Bool.or_eq_true, decide_eq_true_eq, decide_eq_true_eq] at hover
    exact Or.inl ⟨rfl, by show l.messages + 1 ≤ _; omega, by show l.bytes + a.size ≤ _; omega⟩

theorem arrive_none (h : l.arrive limits a = none) : a.time ≤ l.start + limits.window ∧
    (limits.messages < l.messages + 1 ∨ limits.bytes < l.bytes + a.size) := by
  unfold arrive at h
  split at h
  · next hover =>
    split at h
    · cases h
    · next hsoon =>
      rw [Bool.or_eq_true, decide_eq_true_eq, decide_eq_true_eq] at hover
      exact ⟨by omega, hover⟩
  · cases h

theorem epoch_init (now : Int) : Epoch limits w k [] [] (init now) :=
  ⟨rfl, rfl, ⟨Nat.zero_le _, Nat.zero_le _⟩, nofun, nofun, fun _ => Or.inl (Nat.zero_le _),
    fun _ _ => Or.inl (Nat.zero_le _)⟩

/-- The bound for all that was let through so far: what is counted now adds at
most `k` to a window that reaches beyond the start. -/
theorem Epoch.within (h : Epoch limits w k before since l) (hk : total w since ≤ k) (t : Int) :
    Within w (2 * k) (limits.inWindow t (before ++ since)) := by
  rw [inWindow_append]
  by_cases hreach : l.start ≤ t + limits.window
  · have hsince := Nat.le_trans (total_inWindow_le limits w t since) hk
    rw [Nat.two_mul]
    exact Within.append (h.lately t hreach) hsince
  · have hnone : limits.inWindow t since = [] :=
      inWindow_eq_nil fun a ha => Or.inr (by have hstart := h.afterStart a ha; omega)
    rw [hnone, List.append_nil]
    exact h.past t

/-- A counted arrival. -/
theorem Epoch.count (h : Epoch limits w k before since l) (htime : l.start ≤ a.time)
    (hcounted : l.messages + 1 ≤ limits.messages ∧ l.bytes + a.size ≤ limits.bytes) :
    Epoch limits w k before (since ++ [a])
      { l with messages := l.messages + 1, bytes := l.bytes + a.size } where
  messages := by
    show l.messages + 1 = _
    rw [h.messages, List.length_append, List.length_singleton]
  bytes := by
    show l.bytes + a.size = _
    rw [h.bytes, total_append]
    rfl
  counted := hcounted
  afterStart b hb := by
    rcases List.mem_append.mp hb with hsince | hnew
    · exact h.afterStart b hsince
    · rw [List.mem_singleton.mp hnew]
      exact htime
  untilStart := h.untilStart
  past := h.past
  lately := h.lately

/-- An arrival that makes the limiter begin anew: a window that reaches it holds
nothing from before the last start. -/
theorem Epoch.reset (h : Epoch limits w k before since l) (hk : total w since ≤ k)
    (hlate : limits.window < a.time - l.start) (horder : ∀ b ∈ before ++ since, b.time ≤ a.time) :
    Epoch limits w k (before ++ since ++ [a]) [] (init a.time) := by
  have hlately : ∀ t, a.time ≤ t + limits.window →
      Within w k (limits.inWindow t (before ++ since ++ [a])) := by
    intro t hreach
    have hbefore : limits.inWindow t before = [] :=
      inWindow_eq_nil fun b hb => Or.inl (by have hb' := h.untilStart b hb; omega)
    have hsince := Nat.le_trans (total_inWindow_le limits w t since) hk
    rw [inWindow_append, inWindow_append, hbefore, List.nil_append]
    by_cases hin : t ≤ a.time
    · have hself : limits.inWindow t [a] = [a] :=
        inWindow_eq_self fun b hb => by rw [List.mem_singleton.mp hb]; exact ⟨hin, hreach⟩
      rw [hself]
      refine Or.inr ⟨a, List.mem_append_right _ (List.mem_singleton.mpr rfl), ?_⟩
      rw [total_append]
      show _ + (w a + 0) ≤ _
      omega
    · have hnone : limits.inWindow t [a] = [] :=
        inWindow_eq_nil fun b hb => by rw [List.mem_singleton.mp hb]; exact Or.inl (by omega)
      rw [hnone, List.append_nil]
      exact Or.inl hsince
  refine ⟨rfl, rfl, ⟨Nat.zero_le _, Nat.zero_le _⟩, nofun, ?_, ?_, hlately⟩
  · intro b hb
    rcases List.mem_append.mp hb with hold | hnew
    · exact horder b hold
    · rw [List.mem_singleton.mp hnew]
      exact Int.le_refl _
  · intro t
    by_cases hreach : a.time ≤ t + limits.window
    · exact Within.mono (hlately t hreach) (by omega)
    · have hnone : limits.inWindow t [a] = [] :=
        inWindow_eq_nil fun b hb => by rw [List.mem_singleton.mp hb]; exact Or.inr (by omega)
      rw [inWindow_append, hnone, List.append_nil]
      exact Epoch.within h hk t

/-! ## Runs -/

section

variable (hw : ∀ as : List Arrival, as.length ≤ limits.messages →
  total Arrival.size as ≤ limits.bytes → total w as ≤ k)

include hw

theorem Epoch.weight (h : Epoch limits w k before since l) : total w since ≤ k :=
  hw since (h.messages ▸ h.counted.1) (h.bytes ▸ h.counted.2)

theorem Epoch.arrive (h : Epoch limits w k before since l) (htime : l.start ≤ a.time)
    (horder : ∀ b ∈ before ++ since, b.time ≤ a.time) (harrive : l.arrive limits a = some l') :
    ∃ before' since', before' ++ since' = before ++ since ++ [a] ∧
      Epoch limits w k before' since' l' := by
  rcases arrive_cases harrive with ⟨rfl, hcounted⟩ | ⟨hlate, rfl⟩
  · exact ⟨before, since ++ [a], (List.append_assoc _ _ _).symm, Epoch.count h htime hcounted⟩
  · exact ⟨before ++ since ++ [a], [], List.append_nil _,
      Epoch.reset h (Epoch.weight hw h) hlate horder⟩

theorem run_epoch (h : Epoch limits w k before since l) (horder : InOrder (before ++ since ++ as))
    (hstart : ∀ a ∈ as, l.start ≤ a.time)
    (hrun : runEvents (Limiter.arrive limits) l as = some l') :
    ∃ before' since', before' ++ since' = before ++ since ++ as ∧
      Epoch limits w k before' since' l' := by
  induction as generalizing before since l with
  | nil =>
    cases hrun
    exact ⟨before, since, (List.append_nil _).symm, h⟩
  | cons a as ih =>
    obtain ⟨l₁, harrive, hrest⟩ := Option.bind_eq_some_iff.mp hrun
    obtain ⟨_, has, hold⟩ := List.pairwise_append.mp horder
    have hlater : ∀ b ∈ as, a.time ≤ b.time := (List.pairwise_cons.mp has).1
    obtain ⟨before₁, since₁, heq, h₁⟩ := Epoch.arrive hw h (hstart a List.mem_cons_self)
      (fun b hb => hold b hb a List.mem_cons_self) harrive
    have hassoc : before ++ since ++ a :: as = before₁ ++ since₁ ++ as := by
      rw [heq, List.append_assoc (before ++ since), List.singleton_append]
    rw [hassoc] at horder ⊢
    refine ih h₁ horder (fun b hb => ?_) hrest
    rcases arrive_cases harrive with ⟨rfl, _⟩ | ⟨_, rfl⟩
    · exact hstart b (List.mem_cons_of_mem a hb)
    · exact hlater b hb

end

/-- A refused arrival: more than the limit has arrived in the window that begins
with the counting. -/
theorem Epoch.refused (h : Epoch limits w k before since l) (htime : l.start ≤ a.time)
    (horder : ∀ b ∈ since, b.time ≤ a.time) (hrefused : l.arrive limits a = none)
    (more : List Arrival) :
    limits.messages < (limits.inWindow l.start (before ++ since ++ a :: more)).length ∨
      limits.bytes <
        total Arrival.size (limits.inWindow l.start (before ++ since ++ a :: more)) := by
  obtain ⟨hsoon, hover⟩ := arrive_none hrefused
  have hcounted : limits.inWindow l.start (since ++ [a]) = since ++ [a] := by
    refine inWindow_eq_self fun b hb => ?_
    rcases List.mem_append.mp hb with hsince | hnew
    · have hb' := horder b hsince
      exact ⟨h.afterStart b hsince, by omega⟩
    · rw [List.mem_singleton.mp hnew]
      exact ⟨htime, hsoon⟩
  have hsplit : before ++ since ++ a :: more = before ++ (since ++ [a]) ++ more := by simp
  rw [hsplit, inWindow_append, inWindow_append, hcounted]
  rcases hover with hmessages | hbytes
  · left
    rw [h.messages] at hmessages
    simp only [List.length_append, List.length_singleton]
    omega
  · right
    rw [h.bytes] at hbytes
    simp only [total_append]
    show _ < _ + (_ + (a.size + 0)) + _
    omega

end LimiterLemmas

namespace Limiter

open LimiterLemmas

variable {limits : Limits} {as : List Arrival} {now : Int}

/-- In every window what is let through weighs at most twice the limit and one
message. -/
theorem window_within {w : Arrival → Nat} {k : Nat}
    (hw : ∀ as : List Arrival, as.length ≤ limits.messages →
      total Arrival.size as ≤ limits.bytes → total w as ≤ k)
    (horder : InOrder as) (hstart : ∀ a ∈ as, now ≤ a.time) {l : Limiter}
    (hrun : runEvents (arrive limits) (init now) as = some l) (t : Int) :
    Within w (2 * k) (limits.inWindow t as) := by
  obtain ⟨before, since, heq, h⟩ := run_epoch hw (epoch_init now) horder hstart hrun
  have hwithin := Epoch.within h (Epoch.weight hw h) t
  rw [heq] at hwithin
  exact hwithin

/-- Whoever keeps to the limits in every window is never refused. -/
theorem conforming_run (horder : InOrder as) (hstart : ∀ a ∈ as, now ≤ a.time)
    (hconforms : ∀ t, (limits.inWindow t as).length ≤ limits.messages ∧
      total Arrival.size (limits.inWindow t as) ≤ limits.bytes) :
    ∃ l, runEvents (arrive limits) (init now) as = some l := by
  suffices hrun : ∀ before since l, Epoch limits Arrival.size limits.bytes before since l →
      ∀ rest, before ++ since ++ rest = as → (∀ a ∈ rest, l.start ≤ a.time) →
      ∃ l', runEvents (arrive limits) l rest = some l' from
    hrun [] [] (init now) (epoch_init now) as rfl hstart
  intro before since l h rest
  induction rest generalizing before since l with
  | nil => exact fun _ _ => ⟨l, rfl⟩
  | cons a rest ih =>
    intro heq hstart'
    rw [← heq] at horder hconforms
    obtain ⟨_, hrest, hold⟩ := List.pairwise_append.mp horder
    have hearlier : ∀ b ∈ before ++ since, b.time ≤ a.time :=
      fun b hb => hold b hb a List.mem_cons_self
    have htime := hstart' a List.mem_cons_self
    cases harrive : l.arrive limits a with
    | none =>
      have hconforms' := hconforms l.start
      rcases Epoch.refused h htime (fun b hb => hearlier b (List.mem_append_right _ hb)) harrive
        rest with hmessages | hbytes
      · omega
      · omega
    | some l₁ =>
      obtain ⟨before₁, since₁, heq₁, h₁⟩ := Epoch.arrive (fun _ _ h => h) h htime hearlier harrive
      have hassoc : before₁ ++ since₁ ++ rest = as := by
        rw [heq₁, List.append_assoc (before ++ since), List.singleton_append, heq]
      have hstart₁ : ∀ b ∈ rest, l₁.start ≤ b.time := by
        intro b hb
        rcases arrive_cases harrive with ⟨rfl, _⟩ | ⟨_, rfl⟩
        · exact hstart' b (List.mem_cons_of_mem a hb)
        · exact (List.pairwise_cons.mp hrest).1 b hb
      obtain ⟨l', hl'⟩ := ih before₁ since₁ l₁ h₁ hassoc hstart₁
      exact ⟨l', by rw [runEvents, harrive]; exact hl'⟩

end Limiter

end Ian.Lib
