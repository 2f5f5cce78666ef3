import Mathlib.Algebra.Ring.Nat
import Mathlib.Data.List.Basic

/-!
# Messages and the message queue

`server/common/include/common/Message.hpp` and `MessageQueue`. A message is a
nullable reference to its bytes: `is_empty` tests the reference, not the number
of bytes, and `size` and `data` read through it. Reading through a null
reference is `none` here.
-/

namespace Ian.Common

/-- A `Message`; `none` is the message without an implementation. -/
structure Message where
  impl : Option (List UInt8)
deriving DecidableEq, Repr

namespace Message

/-- `Message()`. -/
def empty : Message := ⟨none⟩

def isEmpty (m : Message) : Bool := m.impl.isNone

/-- `size()`, which dereferences the implementation. -/
def size (m : Message) : Option Nat := m.impl.map List.length

/-- `from_vector`. -/
def fromVector (data : List UInt8) : Message := ⟨some data⟩

/-- The bytes of a message. -/
def bytes (m : Message) : List UInt8 := m.impl.getD []

@[simp] theorem bytes_fromVector (data : List UInt8) : (fromVector data).bytes = data := rfl

@[simp] theorem fromVector_isEmpty (data : List UInt8) : (fromVector data).isEmpty = false := rfl

theorem eq_fromVector {m : Message} (h : m.isEmpty = false) : m = fromVector m.bytes := by
  obtain ⟨impl⟩ := m
  cases impl with
  | none => cases h
  | some data => rfl

end Message

/-- A `MessageQueue`: pushed at the front, popped at the back. -/
structure MessageQueue where
  queue : List Message
  totalSize : Nat
deriving DecidableEq, Repr

namespace MessageQueue

def init : MessageQueue := ⟨[], 0⟩

/-- `push`; `none` if the message is null. -/
def push (q : MessageQueue) (m : Message) : Option MessageQueue := do
  let size ← m.size
  return ⟨m :: q.queue, q.totalSize + size⟩

/-- `try_pop`: nothing if the queue is empty, else the message and the queue
without it. The outer `none` is a null message in the queue. -/
def tryPop (q : MessageQueue) : Option (Option (Message × MessageQueue)) :=
  match q.queue.getLast? with
  | none => some none
  | some m => do
    let size ← m.size
    return some (m, ⟨q.queue.dropLast, q.totalSize - size⟩)

def clear (_ : MessageQueue) : MessageQueue := init

/-- The queued messages in the order they will be popped. -/
def pending (q : MessageQueue) : List Message := q.queue.reverse

/-- The invariant of a queue: no null message, and `total_size_` is the sum of
the sizes. -/
structure Valid (q : MessageQueue) : Prop where
  nonNull : ∀ m ∈ q.queue, m.isEmpty = false
  total : q.totalSize = (q.queue.map fun m => m.bytes.length).sum

theorem valid_init : Valid init := ⟨fun _ h => (nomatch h), rfl⟩

/-- A pushed message goes to the end of the waiting list. -/
theorem push_spec {q : MessageQueue} (h : Valid q) {m : Message} (hm : m.isEmpty = false) :
    ∃ q', q.push m = some q' ∧ Valid q' ∧ q'.pending = q.pending ++ [m] := by
  obtain ⟨impl⟩ := m
  cases impl with
  | none => cases hm
  | some data =>
    refine ⟨⟨⟨some data⟩ :: q.queue, q.totalSize + data.length⟩, rfl, ⟨?_, ?_⟩, ?_⟩
    · intro m' hm'
      rcases List.mem_cons.mp hm' with rfl | hq
      · rfl
      · exact h.nonNull m' hq
    · simp only [List.map_cons, List.sum_cons, h.total, Message.bytes, Option.getD_some]
      omega
    · simp only [pending, List.reverse_cons]

/-- Popping takes the head of the waiting list. -/
theorem tryPop_spec {q : MessageQueue} (h : Valid q) :
    (q.tryPop = some none ∧ q.pending = []) ∨
    ∃ m q', q.tryPop = some (some (m, q')) ∧ m.isEmpty = false ∧ Valid q' ∧
      q.pending = m :: q'.pending := by
  obtain ⟨queue, totalSize⟩ := q
  rcases List.eq_nil_or_concat' queue with rfl | ⟨init, m, rfl⟩
  · exact Or.inl ⟨rfl, rfl⟩
  · have hm : m.isEmpty = false := h.nonNull m (by simp)
    have htotal := h.total
    obtain ⟨impl⟩ := m
    cases impl with
    | none => cases hm
    | some data =>
      simp only [List.map_append, List.sum_append, List.map_cons, List.map_nil, List.sum_cons,
        List.sum_nil, Message.bytes, Option.getD_some] at htotal
      refine Or.inr ⟨⟨some data⟩, ⟨init, totalSize - data.length⟩, ?_, hm, ⟨?_, ?_⟩, ?_⟩
      · simp [tryPop, Message.size]
      · intro m' hm'
        exact h.nonNull m' (List.mem_append_left _ hm')
      · show totalSize - data.length = _
        simp only [Message.bytes]
        omega
      · simp [pending]

end MessageQueue

end Ian.Common
