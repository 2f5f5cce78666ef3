import Ian.Common.Message

/-!
# How a connection ends

`ClusterConnection` and `WsConnection` end by one discipline, too: `abort`
closes the socket at once, `shutdown` starts an SSL shutdown whose handler
closes it, and both clear the queue. `Teardown` is the part of a connection
that this is about, and `Once` what the discipline is for.

Main result:
  * `Step.final`: a step keeps `Once`, and from a terminated connection it
    starts no write and leaves it terminated.
-/

namespace Ian.Common

/-- The part of a connection that its end is about. -/
structure Teardown where
  dropped : Bool
  shuttingDown : Bool
  socketOpen : Bool
  /-- The number of times the socket was closed. -/
  closes : Nat
  /-- SSL shutdowns started, and how many of them have not completed. -/
  shutdowns : Nat
  openShutdowns : Nat
  /-- Message writes started, and how many of them have not completed. -/
  writes : Nat
  openWrites : Nat
  queue : MessageQueue
  /-- The arguments of `process_message`. -/
  delivered : List Message
  /-- A null message was dereferenced. -/
  fault : Bool

namespace Teardown

/-- The connection is on its way down, or has been closed. -/
def terminated (t : Teardown) : Bool := t.dropped || t.shuttingDown

def close (t : Teardown) : Teardown :=
  { t with socketOpen := false, closes := t.closes + 1, dropped := true }

def abort (t : Teardown) : Teardown :=
  if t.dropped then t else { t with queue := t.queue.clear }.close

def shutdown (t : Teardown) : Teardown :=
  if t.terminated then t
  else if !t.socketOpen then { t with queue := t.queue.clear }
  else
    { t with
      queue := t.queue.clear
      shutdowns := t.shutdowns + 1
      openShutdowns := t.openShutdowns + 1
      shuttingDown := true }

/-- What a handler that writes no message can do. The socket is closed without
clearing the queue only at the end of an SSL shutdown. -/
inductive Quiet (t : Teardown) : Teardown → Prop where
  | stay : Quiet t t
  | abort : Quiet t t.abort
  | shutdown : Quiet t t.shutdown
  | close (hdropped : t.dropped = false) (hshutting : t.shuttingDown = true) : Quiet t t.close

/-- What a handler can do. -/
inductive Act (t : Teardown) : Teardown → Prop where
  | quiet {t' : Teardown} (h : Quiet t t') : Act t t'
  | push {m : Message} {queue : MessageQueue} (hrunning : t.terminated = false)
    (hm : m.isEmpty = false) (hpush : t.queue.push m = some queue) : Act t { t with queue }
  | write (hrunning : t.terminated = false) :
    Act t { t with writes := t.writes + 1, openWrites := t.openWrites + 1 }
  | pop {m : Message} {queue : MessageQueue} (hpop : t.queue.tryPop = some (some (m, queue))) :
    Act t { t with queue, writes := t.writes + 1, openWrites := t.openWrites + 1 }

/-- Messages are delivered, and a null message may be dereferenced. -/
def noting (t : Teardown) (more : List Message) (fault : Bool) : Teardown :=
  { t with delivered := t.delivered ++ more, fault }

/-- The connection when a handler runs: the operation that completed is not
outstanding any more. -/
structure Completes (t t' : Teardown) : Prop where
  shutdowns : t'.openShutdowns ≤ t.openShutdowns
  writes : t'.openWrites ≤ t.openWrites
  same : t' = { t with openShutdowns := t'.openShutdowns, openWrites := t'.openWrites }

variable {t t' t'' : Teardown}

theorem shutdown_closed (hrunning : t.terminated = false) (hopen : t.socketOpen = false) :
    t.shutdown = { t with queue := t.queue.clear } := by
  unfold shutdown
  rw [if_neg (by simp [hrunning]), if_pos (by simp [hopen])]

theorem shutdown_open (hrunning : t.terminated = false) (hopen : t.socketOpen = true) :
    t.shutdown =
      { t with
        queue := t.queue.clear
        shutdowns := t.shutdowns + 1
        openShutdowns := t.openShutdowns + 1
        shuttingDown := true } := by
  unfold shutdown
  rw [if_neg (by simp [hrunning]), if_neg (by simp [hopen])]

theorem noting_nil (hfault : t.fault = false) : t.noting [] false = t := by
  unfold noting
  rw [List.append_nil, ← hfault]

/-! ## Once and for all -/

/-- The socket is closed at most once, and `dropped` says whether it has been;
at most one SSL shutdown is started, and `shuttingDown` says whether one has
been; the queue of a terminated connection is empty. -/
structure Once (t : Teardown) : Prop where
  closes : t.closes = t.dropped.toNat
  socket : t.socketOpen = !t.dropped
  shutdowns : t.shutdowns = t.shuttingDown.toNat
  openShutdowns : t.openShutdowns ≤ t.shutdowns
  openWrites : t.openWrites ≤ t.writes
  drained : t.terminated = true → t.queue = .init
  valid : t.queue.Valid

/-- Termination is for good, and nothing is written after it. -/
structure Final (t t' : Teardown) : Prop where
  dropped : t.dropped = true → t'.dropped = true
  terminated : t.terminated = true → t'.terminated = true
  writes : t.terminated = true → t'.writes = t.writes

theorem Final.refl (t : Teardown) : Final t t := ⟨id, id, fun _ => rfl⟩

theorem Final.trans (h : Final t t') (h' : Final t' t'') : Final t t'' where
  dropped hd := h'.dropped (h.dropped hd)
  terminated ht := h'.terminated (h.terminated ht)
  writes ht := (h'.writes (h.terminated ht)).trans (h.writes ht)

namespace TeardownLemmas

theorem terminated_of_shuttingDown (h : t.shuttingDown = true) : t.terminated = true := by
  unfold terminated
  rw [h, Bool.or_true]

theorem Once.close (h : Once t) (hdropped : t.dropped = false)
    (hdrained : t.queue = .init) : Once t.close := by
  have hcloses := h.closes
  rw [hdropped] at hcloses
  exact ⟨congrArg (· + 1) hcloses, rfl, h.shutdowns, h.openShutdowns, h.openWrites,
    fun _ => hdrained, h.valid⟩

theorem final_close (t : Teardown) : Final t t.close :=
  ⟨fun _ => rfl, fun _ => rfl, fun _ => rfl⟩

theorem Once.clear (h : Once t) : Once { t with queue := t.queue.clear } :=
  ⟨h.closes, h.socket, h.shutdowns, h.openShutdowns, h.openWrites, fun _ => rfl,
    MessageQueue.valid_init⟩

theorem abort_final (h : Once t) : Once t.abort ∧ Final t t.abort := by
  unfold Teardown.abort
  split
  · exact ⟨h, Final.refl t⟩
  · next hdropped =>
    have hclosed := Once.close (Once.clear h) (by simpa using hdropped) rfl
    exact ⟨hclosed, fun _ => rfl, fun _ => rfl, fun _ => rfl⟩

theorem shutdown_final (h : Once t) : Once t.shutdown ∧ Final t t.shutdown := by
  unfold Teardown.shutdown
  split
  · exact ⟨h, Final.refl t⟩
  · next hrunning =>
    -- Every part of `Final` is about a terminated connection.
    have hidle : ∀ {P : Prop}, t.terminated = true → P := fun ht => absurd ht hrunning
    have hshutting : t.shuttingDown = false := by
      cases hs : t.shuttingDown with
      | false => rfl
      | true => exact hidle (terminated_of_shuttingDown hs)
    have hstarted := h.shutdowns
    rw [hshutting] at hstarted
    split
    · exact ⟨Once.clear h, fun hd => hd, hidle, hidle⟩
    · refine ⟨⟨h.closes, h.socket, congrArg (· + 1) hstarted, ?_, h.openWrites, fun _ => rfl,
        MessageQueue.valid_init⟩, fun hd => hd, hidle, hidle⟩
      exact Nat.succ_le_succ h.openShutdowns

theorem quiet_final (hstep : Quiet t t') (h : Once t) : Once t' ∧ Final t t' := by
  cases hstep with
  | stay => exact ⟨h, Final.refl t⟩
  | abort => exact abort_final h
  | shutdown => exact shutdown_final h
  | close hdropped hshutting =>
    have hdrained := h.drained (terminated_of_shuttingDown hshutting)
    exact ⟨Once.close h hdropped hdrained, final_close t⟩

/-- Writing a message or queueing it is nothing a terminated connection does. -/
theorem act_final (hact : Act t t') (h : Once t) : Once t' ∧ Final t t' := by
  have hidle : ∀ {P : Prop}, t.terminated = false → t.terminated = true → P :=
    fun hf ht => by rw [hf] at ht; cases ht
  cases hact with
  | quiet hquiet => exact quiet_final hquiet h
  | push hrunning hm hpush =>
    obtain ⟨queue, hsome, hvalid, _⟩ := MessageQueue.push_spec h.valid hm
    cases hsome.symm.trans hpush
    exact ⟨⟨h.closes, h.socket, h.shutdowns, h.openShutdowns, h.openWrites, hidle hrunning,
      hvalid⟩, id, id, fun _ => rfl⟩
  | write hrunning =>
    exact ⟨⟨h.closes, h.socket, h.shutdowns, h.openShutdowns, Nat.succ_le_succ h.openWrites,
      h.drained, h.valid⟩, id, id, hidle hrunning⟩
  | pop hpop =>
    have hwaiting : t.terminated = true → False := by
      intro ht
      rw [h.drained ht] at hpop
      cases hpop
    rcases MessageQueue.tryPop_spec h.valid with ⟨hnone, _⟩ | ⟨m, queue, hsome, _, hvalid, _⟩
    · cases hnone.symm.trans hpop
    · cases hsome.symm.trans hpop
      exact ⟨⟨h.closes, h.socket, h.shutdowns, h.openShutdowns, Nat.succ_le_succ h.openWrites,
        fun ht => (hwaiting ht).elim, hvalid⟩, id, id, fun ht => (hwaiting ht).elim⟩

theorem quiet_noted (h : Quiet t t') : t'.delivered = t.delivered ∧ t'.fault = t.fault := by
  cases h with
  | stay => exact ⟨rfl, rfl⟩
  | abort =>
    unfold Teardown.abort
    split <;> exact ⟨rfl, rfl⟩
  | shutdown =>
    unfold Teardown.shutdown
    split
    · exact ⟨rfl, rfl⟩
    split <;> exact ⟨rfl, rfl⟩
  | close => exact ⟨rfl, rfl⟩

theorem quiet_writes (h : Quiet t t') : t'.writes = t.writes := by
  cases h with
  | stay => rfl
  | abort =>
    unfold Teardown.abort
    split <;> rfl
  | shutdown =>
    unfold Teardown.shutdown
    split
    · rfl
    split <;> rfl
  | close => rfl

theorem act_writes_le (h : Act t t') : t.writes ≤ t'.writes := by
  cases h with
  | quiet hquiet => exact Nat.le_of_eq (quiet_writes hquiet).symm
  | push => exact Nat.le_refl _
  | write => exact Nat.le_succ _
  | pop => exact Nat.le_succ _

/-- Whoever has an SSL shutdown pending is shutting down. -/
theorem shuttingDown_of_open (h : Once t) (hopen : 0 < t.openShutdowns) :
    t.shuttingDown = true := by
  have hshutdowns : 0 < t.shuttingDown.toNat :=
    Nat.lt_of_lt_of_le hopen (h.shutdowns ▸ h.openShutdowns)
  cases hs : t.shuttingDown with
  | true => rfl
  | false => simp [hs] at hshutdowns

theorem completes_final (hstep : Completes t t') (h : Once t) : Once t' ∧ Final t t' := by
  obtain ⟨hshutdowns, hwrites, hsame⟩ := hstep
  rw [hsame]
  exact ⟨⟨h.closes, h.socket, h.shutdowns, Nat.le_trans hshutdowns h.openShutdowns,
    Nat.le_trans hwrites h.openWrites, h.drained, h.valid⟩, id, id, fun _ => rfl⟩

end TeardownLemmas

open TeardownLemmas

/-- What a handler does does not add to what is noted. -/
theorem Act.noted (h : Act t t') : t'.delivered = t.delivered ∧ t'.fault = t.fault := by
  cases h with
  | quiet hquiet => exact quiet_noted hquiet
  | push => exact ⟨rfl, rfl⟩
  | write => exact ⟨rfl, rfl⟩
  | pop => exact ⟨rfl, rfl⟩

/-- One handler: an operation completes, messages are delivered, and the
handler acts. -/
def Step (t : Teardown) (more : List Message) (fault : Bool) (t' : Teardown) : Prop :=
  ∃ t₀, Completes t t₀ ∧ Act (t₀.noting more fault) t'

theorem Step.final {more : List Message} {fault : Bool} (hstep : Step t more fault t')
    (h : Once t) : Once t' ∧ Final t t' := by
  obtain ⟨t₀, hcompletes, hact⟩ := hstep
  obtain ⟨honce, hfinal⟩ := completes_final hcompletes h
  -- Neither `Once` nor `Final` looks at what is delivered.
  have honce' : Once (t₀.noting more fault) :=
    ⟨honce.closes, honce.socket, honce.shutdowns, honce.openShutdowns, honce.openWrites,
      honce.drained, honce.valid⟩
  obtain ⟨honce'', hfinal'⟩ := act_final hact honce'
  exact ⟨honce'', hfinal.trans ⟨hfinal'.dropped, hfinal'.terminated, hfinal'.writes⟩⟩

end Teardown

end Ian.Common
