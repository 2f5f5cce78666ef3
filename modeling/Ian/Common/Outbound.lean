import Ian.Common.Message

/-!
# The outbound side of a connection

`ClusterConnection` and `WsConnection` write their messages by one discipline:
`is_writing_` says who starts the next write, a message that comes while one is
being written waits in the queue, and the completion of a write pops the next
one. `Outbound` is that part of a connection, with counters for the writes that
are outstanding, and `Ordered` is what the discipline is for: every message
once, in order, one at a time.

A cluster connection also writes a handshake message first and queues
everything until its handshake is done; a connection without that phase has
`ready` from the start. Each operation here keeps `Ordered`; the connections'
handlers are shown to be these operations on their outbound side.
-/

namespace Ian.Common

/-- What the handlers tell apart in an `error_code`. -/
inductive ErrorKind where
  | reset
  | canceled
  | other
deriving DecidableEq, Repr

/-- The outbound side of a connection. -/
structure Outbound where
  isWriting : Bool
  queue : MessageQueue
  outbound : Message
  /-- Outstanding writes of messages. -/
  messageWrites : Nat
  /-- Outstanding writes of the handshake. -/
  handshakeWrites : Nat
  /-- Other outstanding operations of the handshake. -/
  handshakeWaits : Nat
  /-- The handshake is done. -/
  ready : Bool
  /-- Messages taken, in order. -/
  accepted : List Message
  /-- Messages whose write has completed, in order. -/
  completed : List Message
  /-- A buffer of an outstanding write was assigned to. -/
  overwritten : Bool
  /-- A null message was dereferenced. -/
  fault : Bool

namespace Outbound

/-- A write is outstanding. -/
def writing (o : Outbound) : Bool := decide (0 < o.messageWrites + o.handshakeWrites)

/-- The message in flight, if there is one. -/
def inFlight (o : Outbound) : List Message := if o.messageWrites = 0 then [] else [o.outbound]

/-- Assign the buffer of a write. -/
def assign (o : Outbound) (m : Message) : Outbound :=
  { o with outbound := m, overwritten := o.overwritten || o.writing }

/-- Start the write of a message. -/
def write (o : Outbound) (m : Message) : Outbound :=
  match m.impl with
  | none => { o.assign m with fault := true }
  | some _ => { o.assign m with messageWrites := o.messageWrites + 1 }

/-- Take a message. -/
def accept (o : Outbound) (m : Message) : Outbound :=
  if o.isWriting then
    match o.queue.push m with
    | none => { o with accepted := o.accepted ++ [m], fault := true }
    | some queue => { o with accepted := o.accepted ++ [m], queue }
  else
    { o with accepted := o.accepted ++ [m], isWriting := true }.write m

/-- Write the next message of the queue, or stop writing. -/
def next (o : Outbound) : Outbound :=
  match o.queue.tryPop with
  | none => { o with fault := true }
  | some none => { o with isWriting := false }
  | some (some (m, queue)) => { o with queue }.write m

/-- A write has completed. -/
def wrote (o : Outbound) : Outbound :=
  { { o with messageWrites := o.messageWrites - 1 }.assign .empty with
    completed := o.completed ++ [o.outbound] }.next

/-- Write the handshake message. -/
def greet (o : Outbound) (m : Message) : Outbound :=
  match m.impl with
  | none => { { o with handshakeWaits := o.handshakeWaits - 1 }.assign m with fault := true }
  | some _ =>
    { { o with handshakeWaits := o.handshakeWaits - 1 }.assign m with
      handshakeWrites := o.handshakeWrites + 1 }

/-- The handshake message is written. -/
def greeted (o : Outbound) : Outbound :=
  { { o with handshakeWrites := o.handshakeWrites - 1 }.assign .empty with
    handshakeWaits := o.handshakeWaits + 1 }

/-- The handshake is done. -/
def finishHandshake (o : Outbound) : Outbound :=
  { o with handshakeWaits := o.handshakeWaits - 1, ready := true }.next

/-- An operation of the handshake has ended without a next one. -/
def giveUp (o : Outbound) : Outbound := { o with handshakeWaits := o.handshakeWaits - 1 }

/-- What a handler of a running connection can do to its outbound side. -/
inductive Step : Outbound → Outbound → Prop where
  | accept {o : Outbound} {m : Message} (hm : m.isEmpty = false) : Step o (o.accept m)
  | wrote {o : Outbound} (hwrite : 0 < o.messageWrites) : Step o o.wrote
  | greet {o : Outbound} {m : Message} (hwait : 0 < o.handshakeWaits) (hm : m.isEmpty = false) :
    Step o (o.greet m)
  | greeted {o : Outbound} (hwrite : 0 < o.handshakeWrites) : Step o o.greeted
  | finishHandshake {o : Outbound} (hwait : 0 < o.handshakeWaits) : Step o o.finishHandshake
  | giveUp {o : Outbound} (hwait : 0 < o.handshakeWaits) : Step o o.giveUp
  | stay {o : Outbound} : Step o o

/-! ## Every message once, in order, one at a time -/

/-- The messages taken are those written, the one in flight and those queued,
in this order; at most one write is outstanding and its buffers are not
assigned to; a connection that is not writing has nothing to write, and one
that is, once its handshake is done, has a write outstanding. -/
structure Ordered (o : Outbound) : Prop where
  order : o.accepted = o.completed ++ o.inFlight ++ o.queue.pending
  single : o.messageWrites + o.handshakeWrites ≤ 1
  kept : o.overwritten = false
  idle : o.isWriting = false → o.queue.queue = [] ∧ o.inFlight = []
  busy : o.isWriting = true → o.ready = true → o.messageWrites = 1
  queue : o.queue.Valid
  handshake : o.ready = false →
    o.messageWrites = 0 ∧ o.isWriting = true ∧ o.handshakeWrites + o.handshakeWaits ≤ 1
  opened : o.ready = true → o.handshakeWrites + o.handshakeWaits = 0
  noFault : o.fault = false

namespace OutboundLemmas

theorem write_ordered {o : Outbound} {m : Message} (hm : m.isEmpty = false)
    (horder : o.accepted = o.completed ++ m :: o.queue.pending)
    (hnone : o.messageWrites = 0 ∧ o.handshakeWrites = 0) (hkept : o.overwritten = false)
    (hwriting : o.isWriting = true) (hqueue : o.queue.Valid) (hready : o.ready = true)
    (hopened : o.handshakeWrites + o.handshakeWaits = 0) (hfault : o.fault = false) :
    (o.write m).Ordered := by
  obtain ⟨impl⟩ := m
  cases impl with
  | none => cases hm
  | some data =>
    obtain ⟨hmw, hhw⟩ := hnone
    refine ⟨?_, ?_, ?_, ?_, ?_, hqueue, ?_, ?_, hfault⟩
    · simp only [write, assign, inFlight, Nat.succ_ne_zero, if_false, horder, List.append_assoc,
        List.singleton_append]
    · simp only [write, assign, hmw, hhw, Nat.le_refl]
    · simp [write, assign, writing, hkept, hmw, hhw]
    · intro hidle
      simp only [write, assign, hwriting] at hidle
      cases hidle
    · intro _ _
      simp only [write, assign, hmw]
    · intro hnot
      simp only [write, assign, hready] at hnot
      cases hnot
    · intro _
      exact hopened

/-- Popping the next message, when no write is outstanding. -/
theorem next_ordered {o : Outbound} (horder : o.accepted = o.completed ++ o.queue.pending)
    (hnone : o.messageWrites = 0 ∧ o.handshakeWrites = 0) (hkept : o.overwritten = false)
    (hwriting : o.isWriting = true) (hqueue : o.queue.Valid) (hready : o.ready = true)
    (hopened : o.handshakeWrites + o.handshakeWaits = 0) (hfault : o.fault = false) :
    o.next.Ordered := by
  unfold next
  rcases MessageQueue.tryPop_spec hqueue with ⟨hpop, hempty⟩ | ⟨m, q, hpop, hm, hq, hpending⟩
  · rw [hpop]
    have hinFlight : o.inFlight = [] := if_pos hnone.1
    refine ⟨?_, ?_, hkept, ?_, nofun, hqueue, ?_, fun _ => hopened, hfault⟩
    · show o.accepted = o.completed ++ o.inFlight ++ o.queue.pending
      rw [horder, hinFlight, List.append_nil]
    · show o.messageWrites + o.handshakeWrites ≤ 1
      omega
    · intro _
      exact ⟨List.reverse_eq_nil_iff.mp hempty, hinFlight⟩
    · intro hnot
      cases hready.symm.trans hnot
  · rw [hpop]
    refine write_ordered hm ?_ hnone hkept hwriting hq hready hopened hfault
    rw [← hpending]
    exact horder

theorem accept_ordered {o : Outbound} (h : o.Ordered) {m : Message} (hm : m.isEmpty = false) :
    (o.accept m).Ordered := by
  unfold accept
  by_cases hw : o.isWriting = true
  · obtain ⟨q, hpush, hq, hpending⟩ := MessageQueue.push_spec h.queue hm
    rw [if_pos hw, hpush]
    refine ⟨?_, h.single, h.kept, ?_, h.busy, hq, h.handshake, h.opened, h.noFault⟩
    · show o.accepted ++ [m] = o.completed ++ o.inFlight ++ q.pending
      rw [hpending, h.order, List.append_assoc]
    · intro hidle
      cases hw.symm.trans hidle
  · have hidle : o.isWriting = false := Bool.eq_false_iff.mpr hw
    obtain ⟨hempty, hinFlight⟩ := h.idle hidle
    have hready : o.ready = true := by
      cases hr : o.ready with
      | true => rfl
      | false => cases hidle.symm.trans (h.handshake hr).2.1
    have hzero : o.messageWrites = 0 := by
      by_contra hne
      rw [inFlight, if_neg hne] at hinFlight
      cases hinFlight
    have hopened := h.opened hready
    rw [if_neg hw]
    refine write_ordered hm ?_ ⟨hzero, by show o.handshakeWrites = 0; omega⟩ h.kept rfl h.queue
      hready hopened h.noFault
    show o.accepted ++ [m] = o.completed ++ m :: o.queue.pending
    rw [h.order, hinFlight, MessageQueue.pending, hempty]
    simp

theorem wrote_ordered {o : Outbound} (h : o.Ordered) (hwrite : 0 < o.messageWrites) :
    o.wrote.Ordered := by
  have hsingle := h.single
  have hready : o.ready = true := by
    cases hr : o.ready with
    | true => rfl
    | false =>
      have hnone := (h.handshake hr).1
      omega
  have hwriting : o.isWriting = true := by
    cases hw : o.isWriting with
    | true => rfl
    | false =>
      have hinFlight := (h.idle hw).2
      rw [inFlight, if_neg (Nat.ne_of_gt hwrite)] at hinFlight
      cases hinFlight
  refine next_ordered ?_ ⟨?_, ?_⟩ ?_ hwriting h.queue hready (h.opened hready) h.noFault
  · show o.accepted = o.completed ++ [o.outbound] ++ o.queue.pending
    rw [h.order, inFlight, if_neg (Nat.ne_of_gt hwrite)]
  · show o.messageWrites - 1 = 0
    omega
  · show o.handshakeWrites = 0
    omega
  · show (o.overwritten || writing _) = false
    rw [h.kept, Bool.false_or]
    refine decide_eq_false ?_
    show ¬0 < o.messageWrites - 1 + o.handshakeWrites
    omega

/-- The handshake is not done while an operation of it is outstanding. -/
theorem ready_eq_false {o : Outbound} (h : o.Ordered)
    (hops : 0 < o.handshakeWrites + o.handshakeWaits) : o.ready = false := by
  cases hr : o.ready with
  | false => rfl
  | true =>
    have hnone := h.opened hr
    omega

theorem greet_ordered {o : Outbound} (h : o.Ordered) (hwait : 0 < o.handshakeWaits)
    {m : Message} (hm : m.isEmpty = false) : (o.greet m).Ordered := by
  have hready := ready_eq_false h (by omega)
  obtain ⟨hmw, hwriting, hops⟩ := h.handshake hready
  obtain ⟨impl⟩ := m
  cases impl with
  | none => cases hm
  | some data =>
    have hinFlight : o.inFlight = [] := if_pos hmw
    have horder := h.order
    refine ⟨?_, ?_, ?_, ?_, ?_, h.queue, ?_, ?_, h.noFault⟩
    · show o.accepted = o.completed ++ (if o.messageWrites = 0 then [] else _) ++ o.queue.pending
      rw [if_pos hmw, horder, hinFlight]
    · show o.messageWrites + (o.handshakeWrites + 1) ≤ 1
      omega
    · show (o.overwritten || writing _) = false
      rw [h.kept, Bool.false_or]
      refine decide_eq_false ?_
      show ¬0 < o.messageWrites + o.handshakeWrites
      omega
    · intro hidle
      cases hwriting.symm.trans hidle
    · intro _ hr
      cases hready.symm.trans hr
    · intro _
      refine ⟨hmw, hwriting, ?_⟩
      show o.handshakeWrites + 1 + (o.handshakeWaits - 1) ≤ 1
      omega
    · intro hr
      cases hready.symm.trans hr

theorem greeted_ordered {o : Outbound} (h : o.Ordered) (hwrite : 0 < o.handshakeWrites) :
    o.greeted.Ordered := by
  have hready := ready_eq_false h (by omega)
  obtain ⟨hmw, hwriting, hops⟩ := h.handshake hready
  have hinFlight : o.inFlight = [] := if_pos hmw
  have horder := h.order
  refine ⟨?_, ?_, ?_, ?_, ?_, h.queue, ?_, ?_, h.noFault⟩
  · show o.accepted = o.completed ++ (if o.messageWrites = 0 then [] else _) ++ o.queue.pending
    rw [if_pos hmw, horder, hinFlight]
  · show o.messageWrites + (o.handshakeWrites - 1) ≤ 1
    omega
  · show (o.overwritten || writing _) = false
    rw [h.kept, Bool.false_or]
    refine decide_eq_false ?_
    show ¬0 < o.messageWrites + (o.handshakeWrites - 1)
    omega
  · intro hidle
    cases hwriting.symm.trans hidle
  · intro _ hr
    cases hready.symm.trans hr
  · intro _
    refine ⟨hmw, hwriting, ?_⟩
    show o.handshakeWrites - 1 + (o.handshakeWaits + 1) ≤ 1
    omega
  · intro hr
    cases hready.symm.trans hr

theorem finishHandshake_ordered {o : Outbound} (h : o.Ordered) (hwait : 0 < o.handshakeWaits) :
    o.finishHandshake.Ordered := by
  have hready := ready_eq_false h (by omega)
  obtain ⟨hmw, hwriting, hops⟩ := h.handshake hready
  refine next_ordered ?_ ⟨hmw, ?_⟩ h.kept hwriting h.queue rfl ?_ h.noFault
  · show o.accepted = o.completed ++ o.queue.pending
    rw [h.order, inFlight, if_pos hmw, List.append_nil]
  · show o.handshakeWrites = 0
    omega
  · show o.handshakeWrites + (o.handshakeWaits - 1) = 0
    omega

theorem giveUp_ordered {o : Outbound} (h : o.Ordered) (hwait : 0 < o.handshakeWaits) :
    o.giveUp.Ordered := by
  have hready := ready_eq_false h (by omega)
  obtain ⟨hmw, hwriting, hops⟩ := h.handshake hready
  refine ⟨h.order, h.single, h.kept, h.idle, h.busy, h.queue, ?_, ?_, h.noFault⟩
  · intro _
    refine ⟨hmw, hwriting, ?_⟩
    show o.handshakeWrites + (o.handshakeWaits - 1) ≤ 1
    omega
  · intro hr
    cases hready.symm.trans hr

end OutboundLemmas

open OutboundLemmas

/-- Every step of a running connection keeps the order. -/
theorem Step.ordered {o o' : Outbound} (hstep : Step o o') (h : o.Ordered) : o'.Ordered := by
  cases hstep with
  | accept hm => exact accept_ordered h hm
  | wrote hwrite => exact wrote_ordered h hwrite
  | greet hwait hm => exact greet_ordered h hwait hm
  | greeted hwrite => exact greeted_ordered h hwrite
  | finishHandshake hwait => exact finishHandshake_ordered h hwait
  | giveUp hwait => exact giveUp_ordered h hwait
  | stay => exact h

end Outbound

end Ian.Common
