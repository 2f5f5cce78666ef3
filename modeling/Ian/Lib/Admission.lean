import Mathlib.Tactic.Common

/-!
# Limits on a shared counter

Several doors lead to one place, and a counter says how many are inside. A door
looks at the counter when it starts to wait for somebody, not when somebody
comes in, and the doors do not see each other: a `Gate` has the counter and,
for each door, whether somebody may still come in through it. A limit that is
tested this way can be exceeded by one for every further door
(`Gate.Step.bounded`).

A `Quota` is about those inside. Some of them are admitted to something, each
at a moment when all that are inside are within the limit; others may come
later. Those admitted stay within the limit (`Quota.Step.within`).
-/

namespace Ian.Lib

theorem set_same {l : List Bool} {i : Nat} {b : Bool} (h : l[i]? = some b) : l.set i b = l := by
  obtain ⟨hi, hget⟩ := List.getElem?_eq_some_iff.mp h
  rw [← hget, List.set_getElem_self]

theorem count_set_false_le (l : List Bool) (i : Nat) :
    (l.set i false).count true ≤ l.count true := by
  by_cases hi : i < l.length
  · rw [List.count_set hi]
    exact Nat.sub_le _ _
  · have hsame : l.set i false = l := List.set_eq_of_length_le (Nat.le_of_not_lt hi)
    exact Nat.le_of_eq (congrArg (List.count true) hsame)

theorem count_set_false {l : List Bool} {i : Nat} (h : l[i]? = some true) :
    (l.set i false).count true + 1 = l.count true := by
  obtain ⟨hi, hget⟩ := List.getElem?_eq_some_iff.mp h
  have hpos : 0 < l.count true := List.count_pos_iff.mpr (List.mem_of_getElem? h)
  rw [List.count_set hi, hget]
  exact Nat.sub_add_cancel hpos

structure Gate where
  /-- How many are inside. -/
  inside : Nat
  /-- Whether somebody may still come in, for each door. -/
  committed : List Bool

namespace Gate

/-- What can happen at the doors. -/
inductive Step (limit : Int) (g : Gate) : Gate → Prop where
  /-- A door finds the counter under the limit and waits for somebody. -/
  | commit (i : Nat) (hroom : (g.inside : Int) < limit) :
    Step limit g ⟨g.inside, g.committed.set i true⟩
  | enter (i : Nat) (hcommitted : g.committed[i]? = some true) :
    Step limit g ⟨g.inside + 1, g.committed.set i false⟩
  /-- Nobody comes in through a door any more. -/
  | withdraw (i : Nat) : Step limit g ⟨g.inside, g.committed.set i false⟩
  | leave : Step limit g ⟨g.inside - 1, g.committed⟩
  | stay : Step limit g g

/-- Those inside and those that may still come in. -/
def Bounded (limit : Int) (g : Gate) : Prop :=
  (g.inside : Int) + g.committed.count true < limit + g.committed.length

theorem Step.bounded {limit : Int} {g g' : Gate} (h : Step limit g g') (hg : g.Bounded limit) :
    g'.Bounded limit := by
  unfold Bounded at hg ⊢
  cases h with
  | commit i hroom =>
    -- Whatever the doors are committed to, there is one for each at most.
    have hdoors := List.count_le_length (a := true) (l := g.committed.set i true)
    rw [List.length_set] at hdoors ⊢
    show (g.inside : Int) + (g.committed.set i true).count true < _
    omega
  | enter i hcommitted =>
    have hcount := count_set_false hcommitted
    rw [List.length_set]
    show ((g.inside + 1 : Nat) : Int) + (g.committed.set i false).count true < _
    omega
  | withdraw i =>
    have hcount := count_set_false_le g.committed i
    rw [List.length_set]
    show (g.inside : Int) + (g.committed.set i false).count true < _
    omega
  | leave =>
    show ((g.inside - 1 : Nat) : Int) + g.committed.count true < limit + g.committed.length
    omega
  | stay => exact hg

theorem Step.doors {limit : Int} {g g' : Gate} (h : Step limit g g') :
    g'.committed.length = g.committed.length := by
  cases h with
  | commit i hroom => exact List.length_set
  | enter i hcommitted => exact List.length_set
  | withdraw i => exact List.length_set
  | leave => rfl
  | stay => rfl

/-- A door that does not start to wait. -/
theorem step_set {limit : Int} {g : Gate} {i : Nat} {b b' : Bool} (h : g.committed[i]? = some b)
    (hb : b' = true → b = true) : Step limit g ⟨g.inside, g.committed.set i b'⟩ := by
  cases b' with
  | false => exact .withdraw i
  | true =>
    rw [hb rfl] at h
    rw [set_same h]
    exact .stay

end Gate

/-- Those inside, and which of them are admitted. -/
structure Quota where
  members : List Bool

namespace Quota

inductive Step (limit : Int) (q : Quota) : Quota → Prop where
  | join : Step limit q ⟨q.members ++ [false]⟩
  | grant (i : Nat) (hroom : (q.members.length : Int) ≤ limit) :
    Step limit q ⟨q.members.set i true⟩
  /-- Somebody gives the admission up. -/
  | forgo (i : Nat) : Step limit q ⟨q.members.set i false⟩
  | leave (i : Nat) : Step limit q ⟨q.members.eraseIdx i⟩
  | stay : Step limit q q

def Within (limit : Int) (q : Quota) : Prop := (q.members.count true : Int) ≤ limit

theorem Step.within {limit : Int} {q q' : Quota} (h : Step limit q q') (hq : q.Within limit) :
    q'.Within limit := by
  unfold Within at hq ⊢
  cases h with
  | join =>
    rw [List.count_append]
    simpa using hq
  | grant i hroom =>
    have hall := List.count_le_length (a := true) (l := q.members.set i true)
    rw [List.length_set] at hall
    show ((q.members.set i true).count true : Int) ≤ limit
    omega
  | forgo i =>
    have hcount := count_set_false_le q.members i
    show ((q.members.set i false).count true : Int) ≤ limit
    omega
  | leave i =>
    have hcount := (List.eraseIdx_sublist q.members i).count_le true
    show ((q.members.eraseIdx i).count true : Int) ≤ limit
    omega
  | stay => exact hq

/-- Somebody who is not admitted now. -/
theorem step_set {limit : Int} {q : Quota} {i : Nat} {b b' : Bool} (h : q.members[i]? = some b)
    (hb : b' = true → b = true) : Step limit q ⟨q.members.set i b'⟩ := by
  cases b' with
  | false => exact .forgo i
  | true =>
    rw [hb rfl] at h
    rw [set_same h]
    exact .stay

end Quota

end Ian.Lib
