import Ian.Cluster.Teardown

/-!
# The layers of a cluster connection

After the handshake all operations of a connection should be on one layer: the
SSL stream on a safe link, and the socket under it on a clear one. `StepStarts`
lists what a step in the strand can start.

Reads and writes follow `safe_link_`, but `shutdown` looks at `downgraded_`,
which nothing sets: a clear link that is shut down gets an SSL shutdown
(`one_layer_iff`).
-/

namespace Ian.Cluster

open Ian.Lib Ian.Common DecodingLemmas

/-- An operation of the handshake. -/
def AsyncOp.isHandshake : AsyncOp → Bool
  | .sslHandshake => true
  | .handshakeWrite _ => true
  | .handshakeRead => true
  | _ => false

/-- A read, or the write of one frame, on the given layer. -/
def AsyncOp.IsData (layer : Layer) (op : AsyncOp) : Prop :=
  op = .read layer ∨ ∃ payload, op = .write layer (frame payload)

/-- An operation that may be started after the handshake: data on the layer of
the link, and an SSL shutdown on a safe link. -/
def AsyncOp.OnLink (safeLink : Bool) (op : AsyncOp) : Prop :=
  op.IsData (if safeLink then .ssl else .clear) ∨ (op = .sslShutdown ∧ safeLink = true)

namespace Connection

/-- The handler of the event calls `shutdown` and this has an effect, once the
handshake is done: an error other than a reset or a cancellation, or a header
without a length. -/
def shutsDown (c : Connection) : Event → Bool
  | .read (.error .other) => !c.terminated
  | .read (.ok chunk) =>
    !c.terminated &&
      (decode (unfinished c.inMessageLen c.readBuffer ++ chunk)).2 == .rejected
  | .wrote (.error .other) => !c.terminated
  | _ => false

/-- Whatever a step starts after the handshake, or at its end, is on the layer
of the link. -/
def OneLayer (handshake : Message) (c : Connection) (e : Event) : Prop :=
  ∀ c', step handshake c e = some c' → c'.handshakeDone = true →
    ∃ ops, c'.started = c.started ++ ops ∧ ∀ op ∈ ops, op.OnLink c.safeLink

/-- A clear link is not shut down after the handshake. -/
def ClearStaysUp (c : Connection) (e : Event) : Prop :=
  c.handshakeDone = true → c.safeLink = false → c.shutsDown e = false

instance (c : Connection) (e : Event) : Decidable (ClearStaysUp c e) :=
  inferInstanceAs (Decidable (_ → _ → _))

/-- What a handler starts, and what it leaves as it is. -/
structure Starts (c c' : Connection) (ops : List AsyncOp) : Prop where
  started : c'.started = c.started ++ ops
  pending : c'.pending = c.pending ++ ops
  safeLink : c'.safeLink = c.safeLink
  downgraded : c'.downgraded = c.downgraded
  handshakeDone : c'.handshakeDone = c.handshakeDone
  len : c.inMessageLen < 2 ^ 32 → c'.inMessageLen < 2 ^ 32

variable {c c' c'' : Connection}

theorem Starts.trans {ops ops' : List AsyncOp} (h : Starts c c' ops) (h' : Starts c' c'' ops') :
    Starts c c'' (ops ++ ops') where
  started := by rw [h'.started, h.started, List.append_assoc]
  pending := by rw [h'.pending, h.pending, List.append_assoc]
  safeLink := h'.safeLink.trans h.safeLink
  downgraded := h'.downgraded.trans h.downgraded
  handshakeDone := h'.handshakeDone.trans h.handshakeDone
  len hlen := h'.len (h.len hlen)

/-- What holds throughout a run: the teardown is in order, `downgraded_` is not
set, and an outstanding operation of the handshake is the only one and means
that the handshake is not done. -/
structure Linked (c : Connection) : Prop where
  once : c.teardown.Once
  len : c.inMessageLen < 2 ^ 32
  notDowngraded : c.downgraded = false
  handshakes : c.pending.countP AsyncOp.isHandshake + c.handshakeDone.toNat ≤ 1

/-- What a step in the strand starts. -/
inductive StepStarts (c : Connection) (e : Event) (c' : Connection) : Prop where
  /-- Data, or nothing. -/
  | data (p : AsyncOp → Bool) (ops : List AsyncOp) (h : Starts (c.without p) c' ops)
    (hdata : ∀ op ∈ ops, op.IsData c.layer) (hup : c.shutsDown e = false)
  /-- An SSL shutdown. -/
  | down (p : AsyncOp → Bool) (h : Starts (c.without p) c' [.sslShutdown])
    (hdown : c.handshakeDone = true → c.shutsDown e = true)
  /-- The next operation of the handshake. -/
  | handshake (p : AsyncOp → Bool) (op : AsyncOp) (hp : ∀ op, p op = true → op.isHandshake = true)
    (hany : c.pending.any p = true) (h : Starts (c.without p) c' [op])
    (hop : op.isHandshake = true)
  /-- The end of the handshake. -/
  | finish (p : AsyncOp → Bool) (ops : List AsyncOp)
    (hp : ∀ op, p op = true → op.isHandshake = true) (hany : c.pending.any p = true)
    (h : Starts { c.without p with handshakeDone := true } c' ops)
    (hdata : ∀ op ∈ ops, op.IsData c.layer)

namespace LayersLemmas

/-! ## Operations -/

/-- Nothing is started, and nothing else is changed that `Starts` looks at. -/
theorem starts_nil (hstarted : c'.started = c.started) (hpending : c'.pending = c.pending)
    (hlink : c'.safeLink = c.safeLink) (hdown : c'.downgraded = c.downgraded)
    (hdone : c'.handshakeDone = c.handshakeDone)
    (hlen : c.inMessageLen < 2 ^ 32 → c'.inMessageLen < 2 ^ 32) : Starts c c' [] :=
  ⟨by rw [List.append_nil, hstarted], by rw [List.append_nil, hpending], hlink, hdown, hdone, hlen⟩

theorem Starts.refl (c : Connection) : Starts c c [] := starts_nil rfl rfl rfl rfl rfl id

theorem abort_starts (c : Connection) : Starts c c.abort [] := by
  unfold abort
  split
  · exact Starts.refl c
  · exact starts_nil rfl rfl rfl rfl rfl id

theorem shutdown_starts (hdown : c.downgraded = false) (hopen : c.socketOpen = !c.dropped) :
    Starts c c.shutdown (if c.terminated then [] else [.sslShutdown]) := by
  unfold shutdown
  dsimp only
  split
  · next hflags =>
    have hterminated : c.terminated = true := hflags
    rw [if_pos hterminated]
    exact starts_nil rfl rfl rfl rfl rfl id
  · next hflags =>
    have hdropped : c.dropped = false := by
      cases hd : c.dropped with
      | false => rfl
      | true => simp [hd] at hflags
    have hrunning : ¬c.terminated = true := hflags
    rw [if_neg hrunning, if_neg (by simp [hdown]), if_neg (by simp [hopen, hdropped])]
    exact ⟨rfl, rfl, rfl, rfl, rfl, id⟩

theorem handleError_starts (hdown : c.downgraded = false) (hopen : c.socketOpen = !c.dropped)
    (ec : ErrorKind) :
    Starts c (c.handleError ec) (if c.terminated || ec != .other then [] else [.sslShutdown]) := by
  unfold handleError
  split
  · next hdropped =>
    rw [if_pos (by simp [terminated, hdropped])]
    exact Starts.refl c
  cases ec with
  | reset =>
    rw [if_pos (by simp)]
    exact abort_starts c
  | canceled =>
    rw [if_pos (by simp)]
    exact Starts.refl c
  | other =>
    have hother : (c.terminated || ErrorKind.other != .other) = c.terminated := by simp
    rw [hother]
    exact shutdown_starts hdown hopen

theorem doWriteMessage_starts (c : Connection) {m : Message} (hm : m.isEmpty = false) :
    Starts c (c.doWriteMessage m) [.write c.layer (frame m.bytes)] := by
  rw [Message.eq_fromVector hm]
  exact ⟨rfl, rfl, rfl, rfl, rfl, id⟩

theorem isData_write (c : Connection) (payload : List UInt8) :
    ∀ op ∈ [AsyncOp.write c.layer (frame payload)], op.IsData c.layer := by
  intro op hop
  rw [List.mem_singleton.mp hop]
  exact Or.inr ⟨payload, rfl⟩

theorem writeQueued_starts (hvalid : c.messageQueue.Valid) :
    ∃ ops, Starts c c.writeQueued ops ∧ ∀ op ∈ ops, op.IsData c.layer := by
  unfold writeQueued
  rcases MessageQueue.tryPop_spec hvalid with ⟨hnone, _⟩ | ⟨m, queue, hsome, hm, _, _⟩
  · rw [hnone]
    exact ⟨[], starts_nil rfl rfl rfl rfl rfl id, nofun⟩
  · rw [hsome]
    have hwrite := doWriteMessage_starts { c with messageQueue := queue } hm
    exact ⟨_, ⟨hwrite.started, hwrite.pending, hwrite.safeLink, hwrite.downgraded,
      hwrite.handshakeDone, hwrite.len⟩, isData_write c m.bytes⟩

/-! ## Handlers -/

/-- While an operation of the handshake is outstanding the handshake is not
done. -/
theorem not_done_of_pending (h : Linked c) {p : AsyncOp → Bool}
    (hp : ∀ op, p op = true → op.isHandshake = true) (hany : c.pending.any p = true) :
    c.handshakeDone = false := by
  have hcount := countP_eraseP_of_imp hp hany
  have hle := h.handshakes
  cases hd : c.handshakeDone with
  | false => rfl
  | true =>
    rw [hd, Bool.toNat_true] at hle
    omega

/-- A handler that shuts the connection down, unless it is down already. -/
theorem stepStarts_shutdown {e : Event} {p : AsyncOp → Bool} {down : Bool}
    (h : Starts (c.without p) c' (if down then [.sslShutdown] else []))
    (hshuts : c.shutsDown e = down ∨ (c.handshakeDone = false ∧ c.shutsDown e = false)) :
    StepStarts c e c' := by
  cases down with
  | true =>
    rw [if_pos rfl] at h
    refine .down p h fun hdone => ?_
    rcases hshuts with hdown | ⟨hnotDone, _⟩
    · exact hdown
    · cases hnotDone.symm.trans hdone
  | false =>
    rw [if_neg (by simp)] at h
    refine .data p [] h nofun ?_
    rcases hshuts with hup | ⟨_, hup⟩
    · exact hup
    · exact hup

/-- Errors end the same way, in whatever operation they occur. -/
theorem handleError_stepStarts (hlinked : Linked c) {e : Event} {p : AsyncOp → Bool}
    {ec : ErrorKind} (c1 : Connection) (h1 : Starts (c.without p) c1 [])
    (hflags : c1.terminated = c.terminated) (hsocket : c1.socketOpen = !c1.dropped)
    (hshuts : c.shutsDown e = (!c.terminated && ec == .other) ∨
      (c.handshakeDone = false ∧ c.shutsDown e = false)) : StepStarts c e (c1.handleError ec) := by
  have herror := handleError_starts (h1.downgraded.trans hlinked.notDowngraded) hsocket ec
  have hops : (if c1.terminated || ec != .other then [] else [AsyncOp.sslShutdown]) =
      if !c.terminated && ec == .other then [.sslShutdown] else [] := by
    rw [hflags]
    cases c.terminated <;> cases ec <;> rfl
  rw [hops] at herror
  exact stepStarts_shutdown (h1.trans herror) hshuts

theorem onRead_stepStarts (hlinked : Linked c) (result : Except ErrorKind (List UInt8)) :
    StepStarts c (.read result) ((c.without AsyncOp.isRead).onRead result) := by
  cases result with
  | error ec =>
    refine handleError_stepStarts hlinked (c.without AsyncOp.isRead) (Starts.refl _) rfl
      hlinked.once.socket (Or.inl ?_)
    cases ec <;> simp [shutsDown]
  | ok chunk =>
    have hend := onRead_decode (c.without AsyncOp.isRead) chunk hlinked.len
    have hshuts : c.shutsDown (.read (.ok chunk)) = (!c.terminated &&
        (decode (unfinished c.inMessageLen c.readBuffer ++ chunk)).2 == .rejected) := rfl
    have hbytes : unfinished (c.without AsyncOp.isRead).inMessageLen
        (c.without AsyncOp.isRead).readBuffer = unfinished c.inMessageLen c.readBuffer := rfl
    unfold loopEnd at hend
    rw [hbytes] at hend
    have hmore : ∀ len rest, (decode (unfinished c.inMessageLen c.readBuffer ++ chunk)).2 =
        .more len rest → len < 2 ^ 32 := fun _ _ h => (decode_unfinished h).2
    generalize decode (unfinished c.inMessageLen c.readBuffer ++ chunk) = d at hend hshuts hmore
    obtain ⟨payloads, tail⟩ := d
    cases tail with
    | more len rest =>
      have hlen : len < 2 ^ 32 := hmore len rest rfl
      dsimp only at hend
      rw [hend]
      refine .data AsyncOp.isRead [.read c.layer] ⟨rfl, rfl, rfl, rfl, rfl, fun _ => hlen⟩ ?_ ?_
      · intro op hop
        exact Or.inl (List.mem_singleton.mp hop)
      · rw [hshuts]
        cases c.terminated <;> rfl
    | rejected =>
      obtain ⟨rest, hrest⟩ := hend
      rw [hrest]
      have hdecoded : Starts (c.without AsyncOp.isRead)
          (decoded (c.without AsyncOp.isRead) payloads 0 rest) [] :=
        starts_nil rfl rfl rfl rfl rfl fun _ => Nat.two_pow_pos 32
      have hshutdown := shutdown_starts (c := decoded (c.without AsyncOp.isRead) payloads 0 rest)
        hlinked.notDowngraded hlinked.once.socket
      have hops : (if (decoded (c.without AsyncOp.isRead) payloads 0 rest).terminated then []
          else [AsyncOp.sslShutdown]) = if !c.terminated then [.sslShutdown] else [] := by
        show (if c.terminated then [] else _) = _
        cases c.terminated <;> rfl
      have hiff : c.shutsDown (.read (.ok chunk)) = !c.terminated := by
        rw [hshuts]
        cases c.terminated <;> rfl
      rw [hops] at hshutdown
      exact stepStarts_shutdown (hdecoded.trans hshutdown) (Or.inl hiff)

theorem onWriteMessage_stepStarts (hlinked : Linked c) (result : Except ErrorKind Unit) :
    StepStarts c (.wrote result) ((c.without AsyncOp.isMessageWrite).onWriteMessage result) := by
  cases result with
  | error ec =>
    refine handleError_stepStarts hlinked
      { (c.without AsyncOp.isMessageWrite).assignOutbound .empty with writeFailed := true }
      (starts_nil rfl rfl rfl rfl rfl id) rfl hlinked.once.socket (Or.inl ?_)
    cases ec <;> simp [shutsDown]
  | ok u =>
    obtain ⟨ops, hops, hdata⟩ := writeQueued_starts
      (c := { (c.without AsyncOp.isMessageWrite).assignOutbound .empty with
        completed := c.completed ++ [c.messageOutbound] }) hlinked.once.valid
    exact .data AsyncOp.isMessageWrite ops ⟨hops.started, hops.pending, hops.safeLink,
      hops.downgraded, hops.handshakeDone, hops.len⟩ hdata rfl

theorem without_none (c : Connection) : c.without (fun _ => false) = c := by
  have herase : ∀ ops : List AsyncOp, ops.eraseP (fun _ => false) = ops := by
    intro ops
    exact List.eraseP_of_forall_not (by simp)
  unfold without
  rw [herase]

theorem sendMessage_stepStarts (hlinked : Linked c) (m : Message) :
    StepStarts c (.send m) (c.sendMessage m) := by
  have hnothing : ∀ c', Starts c c' [] → StepStarts c (.send m) c' := by
    intro c' h
    refine .data (fun _ => false) [] ?_ nofun rfl
    rw [without_none]
    exact h
  unfold sendMessage sendMessageBody
  split
  · exact hnothing c (Starts.refl c)
  next hempty =>
  have hm : m.isEmpty = false := by simpa using hempty
  split
  · exact hnothing c (Starts.refl c)
  dsimp only
  split
  · have hwrite := doWriteMessage_starts
      { c with accepted := c.accepted ++ [m], isWriting := true } hm
    refine .data (fun _ => false) _ ?_ (isData_write c m.bytes) rfl
    rw [without_none]
    exact ⟨hwrite.started, hwrite.pending, hwrite.safeLink, hwrite.downgraded,
      hwrite.handshakeDone, hwrite.len⟩
  · have hvalid : c.messageQueue.Valid := hlinked.once.valid
    obtain ⟨queue, hpush, _⟩ := MessageQueue.push_spec hvalid hm
    rw [hpush]
    exact hnothing _ (starts_nil rfl rfl rfl rfl rfl id)

theorem onSslHandshake_stepStarts {handshake : Message}
    (hany : c.pending.any (· == .sslHandshake) = true) (result : Except ErrorKind Unit) :
    StepStarts c (.sslHandshake result)
      ((c.without (· == .sslHandshake)).onSslHandshake handshake result) := by
  cases result with
  | error ec => exact .data (· == .sslHandshake) [] (abort_starts _) nofun rfl
  | ok u =>
    obtain ⟨impl⟩ := handshake
    cases impl with
    | none =>
      exact .data (· == .sslHandshake) [] (starts_nil rfl rfl rfl rfl rfl id) nofun rfl
    | some payload =>
      exact .handshake (· == .sslHandshake) (.handshakeWrite (frame payload))
        (fun op h => by rw [eq_of_beq h]; rfl) hany ⟨rfl, rfl, rfl, rfl, rfl, id⟩ rfl

theorem onIanHandshakeSent_stepStarts (hlinked : Linked c)
    (hany : c.pending.any AsyncOp.isHandshakeWrite = true) (result : Except ErrorKind Unit) :
    StepStarts c (.handshakeSent result)
      ((c.without AsyncOp.isHandshakeWrite).onIanHandshakeSent result) := by
  have hp : ∀ op : AsyncOp, op.isHandshakeWrite = true → op.isHandshake = true := by
    intro op h
    cases op <;> first | rfl | cases h
  cases result with
  | error ec =>
    exact handleError_stepStarts hlinked
      { (c.without AsyncOp.isHandshakeWrite).assignOutbound .empty with writeFailed := true }
      (starts_nil rfl rfl rfl rfl rfl id) rfl hlinked.once.socket
      (Or.inr ⟨not_done_of_pending hlinked hp hany, rfl⟩)
  | ok u =>
    exact .handshake AsyncOp.isHandshakeWrite .handshakeRead hp hany ⟨rfl, rfl, rfl, rfl, rfl, id⟩
      rfl

/-- A violation of the handshake shuts the connection down. -/
theorem shutdown_stepStarts (hlinked : Linked c) {e : Event} {p : AsyncOp → Bool}
    (hp : ∀ op, p op = true → op.isHandshake = true) (hany : c.pending.any p = true)
    (hup : c.shutsDown e = false) {len : Nat} (hlen : len < 2 ^ 32) (buffer : List UInt8) :
    StepStarts c e
      ({ c.without p with inMessageLen := len, readBuffer := buffer } : Connection).shutdown := by
  have hshutdown := shutdown_starts
    (c := { c.without p with inMessageLen := len, readBuffer := buffer })
    hlinked.notDowngraded hlinked.once.socket
  have hops : (if ({ c.without p with
      inMessageLen := len, readBuffer := buffer } : Connection).terminated then []
      else [AsyncOp.sslShutdown]) = if !c.terminated then [.sslShutdown] else [] := by
    show (if c.terminated then [] else _) = _
    cases c.terminated <;> rfl
  have hbuffer : Starts (c.without p) { c.without p with inMessageLen := len, readBuffer := buffer }
      [] := starts_nil rfl rfl rfl rfl rfl fun _ => hlen
  rw [hops] at hshutdown
  exact stepStarts_shutdown (hbuffer.trans hshutdown)
    (Or.inr ⟨not_done_of_pending hlinked hp hany, hup⟩)

/-- Once the length of the peer's handshake is known it is read to its end. -/
theorem handshakeBody_stepStarts (hlinked : Linked c)
    (hany : c.pending.any (· == .handshakeRead) = true) {result : Except ErrorKind (List UInt8)}
    {len : Nat} (hlen : len < 2 ^ 32) (buffer : List UInt8) :
    StepStarts c (.handshakeRead result) ({ c.without (· == .handshakeRead) with
      inMessageLen := len, readBuffer := buffer } : Connection).handshakeBody := by
  have hp : ∀ op : AsyncOp, (op == .handshakeRead) = true → op.isHandshake = true :=
    fun op h => by rw [eq_of_beq h]; rfl
  unfold handshakeBody
  split
  · exact .handshake (· == .handshakeRead) .handshakeRead hp hany
      ⟨rfl, rfl, rfl, rfl, rfl, fun _ => hlen⟩ rfl
  split
  · exact shutdown_stepStarts hlinked hp hany rfl hlen buffer
  · obtain ⟨ops, hops, hdata⟩ := writeQueued_starts (c := readNext {
      c.without (· == .handshakeRead) with
        inMessageLen := 0
        readBuffer := buffer.drop len
        handshakeDone := true }) hlinked.once.valid
    refine .finish (· == .handshakeRead) (.read c.layer :: ops) hp hany ?_ ?_
    · exact ⟨hops.started.trans (List.append_assoc _ _ _),
        hops.pending.trans (List.append_assoc _ _ _), hops.safeLink, hops.downgraded,
        hops.handshakeDone, fun _ => hops.len (Nat.two_pow_pos 32)⟩
    · intro op hop
      rcases List.mem_cons.mp hop with rfl | hrest
      · exact Or.inl rfl
      · exact hdata op hrest

theorem onIanHandshake_stepStarts (hlinked : Linked c)
    (hany : c.pending.any (· == .handshakeRead) = true) (result : Except ErrorKind (List UInt8)) :
    StepStarts c (.handshakeRead result)
      ((c.without (· == .handshakeRead)).onIanHandshake result) := by
  have hp : ∀ op : AsyncOp, (op == .handshakeRead) = true → op.isHandshake = true :=
    fun op h => by rw [eq_of_beq h]; rfl
  cases result with
  | error ec =>
    exact handleError_stepStarts hlinked (c.without (· == .handshakeRead)) (Starts.refl _) rfl
      hlinked.once.socket (Or.inr ⟨not_done_of_pending hlinked hp hany, rfl⟩)
  | ok chunk =>
    unfold onIanHandshake
    dsimp only
    split
    · split
      · exact shutdown_stepStarts hlinked hp hany rfl hlinked.len _
      split
      · exact shutdown_stepStarts hlinked hp hany rfl (FramingLemmas.readLe32_lt _) _
      · exact handshakeBody_stepStarts hlinked hany (FramingLemmas.readLe32_lt _) _
    · exact handshakeBody_stepStarts hlinked hany hlinked.len _

theorem onShutdown_starts (c : Connection) (result : Except ErrorKind Unit) :
    Starts c (c.onShutdown result) [] := by
  unfold onShutdown
  split
  · exact Starts.refl c
  · exact starts_nil rfl rfl rfl rfl rfl id

end LayersLemmas

open LayersLemmas WritingLemmas

theorem step_starts {handshake : Message} {e : Event} (hlinked : Linked c)
    (h : step handshake c e = some c') : StepStarts c e c' := by
  cases (step_cases h).2 with
  | send message => exact sendMessage_stepStarts hlinked message
  | sslHandshake result hany => exact onSslHandshake_stepStarts hany result
  | handshakeSent result hany => exact onIanHandshakeSent_stepStarts hlinked hany result
  | handshakeRead result hany => exact onIanHandshake_stepStarts hlinked hany result
  | read result => exact onRead_stepStarts hlinked result
  | wrote result => exact onWriteMessage_stepStarts hlinked result
  | shutdownDone result =>
    exact .data (· == .sslShutdown) [] (onShutdown_starts _ result) nofun rfl

namespace LayersLemmas

/-! ## The invariant -/

theorem IsData.not_handshake {layer : Layer} {op : AsyncOp} (h : op.IsData layer) :
    op.isHandshake = false := by
  rcases h with rfl | ⟨payload, rfl⟩ <;> rfl

theorem countP_data {layer : Layer} {ops : List AsyncOp} (h : ∀ op ∈ ops, op.IsData layer) :
    ops.countP AsyncOp.isHandshake = 0 := by
  rw [List.countP_eq_zero]
  intro op hop
  rw [IsData.not_handshake (h op hop)]
  simp

/-- At most one operation of the handshake is outstanding, and none once it is
done. -/
theorem StepStarts.handshakes {e : Event} (hlinked : Linked c) (h : StepStarts c e c') :
    c'.pending.countP AsyncOp.isHandshake + c'.handshakeDone.toNat ≤ 1 := by
  have hle := hlinked.handshakes
  have herase : ∀ p, (c.without p).pending.countP AsyncOp.isHandshake ≤
      c.pending.countP AsyncOp.isHandshake := fun p => List.eraseP_sublist.countP_le
  cases h with
  | data p ops h hdata hup =>
    have hp := herase p
    rw [h.pending, h.handshakeDone, List.countP_append, countP_data hdata]
    show _ + c.handshakeDone.toNat ≤ 1
    omega
  | down p h hdown =>
    have hp := herase p
    rw [h.pending, h.handshakeDone, List.countP_append]
    show _ + 0 + c.handshakeDone.toNat ≤ 1
    omega
  | handshake p op hp hany h hop =>
    have hcount : (c.without p).pending.countP AsyncOp.isHandshake + 1 = _ :=
      countP_eraseP_of_imp hp hany
    rw [h.pending, h.handshakeDone, List.countP_append, List.countP_singleton, if_pos hop]
    show _ + c.handshakeDone.toNat ≤ 1
    omega
  | finish p ops hp hany h hdata =>
    have hcount : (c.without p).pending.countP AsyncOp.isHandshake + 1 = _ :=
      countP_eraseP_of_imp hp hany
    rw [h.pending, h.handshakeDone, List.countP_append, countP_data hdata]
    show (c.without p).pending.countP AsyncOp.isHandshake + 0 + 1 ≤ 1
    omega

theorem StepStarts.kept {e : Event} (h : StepStarts c e c') : c'.safeLink = c.safeLink ∧
    c'.downgraded = c.downgraded ∧ (c.inMessageLen < 2 ^ 32 → c'.inMessageLen < 2 ^ 32) := by
  cases h with
  | data p ops h hdata hup => exact ⟨h.safeLink, h.downgraded, h.len⟩
  | down p h hdown => exact ⟨h.safeLink, h.downgraded, h.len⟩
  | handshake p op hp hany h hop => exact ⟨h.safeLink, h.downgraded, h.len⟩
  | finish p ops hp hany h hdata => exact ⟨h.safeLink, h.downgraded, h.len⟩

end LayersLemmas

theorem step_linked {handshake : Message} {e : Event} (hlinked : Linked c)
    (h : step handshake c e = some c') : Linked c' := by
  have hstarts := step_starts hlinked h
  obtain ⟨_, hdown, hlen⟩ := StepStarts.kept hstarts
  exact ⟨((step_teardown hlinked.once hlinked.len h).final hlinked.once).1, hlen hlinked.len,
    hdown.trans hlinked.notDowngraded, StepStarts.handshakes hlinked hstarts⟩

theorem step_fault {handshake : Message} {e : Event} (hlinked : Linked c)
    (h : step handshake c e = some c') : c'.fault = derefsNull handshake e := by
  obtain ⟨_, _, hact⟩ := step_teardown hlinked.once hlinked.len h
  exact hact.noted.2

/-- Only the handshake message can be null. -/
theorem run_fault {handshake : Message} {es : List Event} (hlinked : Linked c)
    (hfault : c.fault = false) (h : runEvents (step handshake) c es = some c') :
    c'.fault = es.any (derefsNull handshake) := by
  induction es generalizing c with
  | nil =>
    cases h
    exact hfault
  | cons e es ih =>
    obtain ⟨t, ht, hrest⟩ := Option.bind_eq_some_iff.mp h
    have hnull := step_fault hlinked ht
    rw [List.any_cons, ← hnull]
    cases hf : t.fault with
    | false => exact ih (step_linked hlinked ht) hf hrest
    | true =>
      -- Nothing happens after a fault.
      cases es with
      | nil =>
        cases hrest
        exact hf
      | cons e' es' =>
        obtain ⟨t', ht', _⟩ := Option.bind_eq_some_iff.mp hrest
        unfold step at ht'
        rw [if_pos hf] at ht'
        cases ht'

theorem run_linked (safeLink : Bool) : Linked (init.run safeLink) :=
  ⟨⟨rfl, rfl, rfl, Nat.le_refl 0, Nat.le_refl 0, fun _ => rfl, MessageQueue.valid_init⟩,
    Nat.two_pow_pos 32, rfl, Nat.le_refl 1⟩

namespace LayersLemmas

/-! ## One layer -/

theorem onLink_of_isData {op : AsyncOp} (h : op.IsData c.layer) : op.OnLink c.safeLink := Or.inl h

theorem oneLayer_of_data {handshake : Message} {e : Event} {ops : List AsyncOp}
    (h : step handshake c e = some c') (hstarted : c'.started = c.started ++ ops)
    (hdata : ∀ op ∈ ops, op.IsData c.layer) : OneLayer handshake c e := by
  intro c'' h' _
  cases h.symm.trans h'
  exact ⟨ops, hstarted, fun op hop => onLink_of_isData (hdata op hop)⟩

/-- A step stays on the layer of the link exactly when it does not shut a clear
link down. -/
theorem step_oneLayer {handshake : Message} {e : Event} (hlinked : Linked c)
    (h : step handshake c e = some c') : OneLayer handshake c e ↔ ClearStaysUp c e := by
  cases step_starts hlinked h with
  | data p ops hstarts hdata hup =>
    exact ⟨fun _ _ _ => hup, fun _ => oneLayer_of_data h hstarts.started hdata⟩
  | handshake p op hp hany hstarts hop =>
    have hdone : c.handshakeDone = false := not_done_of_pending hlinked hp hany
    have hdone' : c'.handshakeDone = false := hstarts.handshakeDone.trans hdone
    refine ⟨fun _ hd => (nomatch hdone.symm.trans hd), fun _ c'' h' hd => ?_⟩
    cases h.symm.trans h'
    cases hdone'.symm.trans hd
  | finish p ops hp hany hstarts hdata =>
    have hdone : c.handshakeDone = false := not_done_of_pending hlinked hp hany
    exact ⟨fun _ hd => (nomatch hdone.symm.trans hd),
      fun _ => oneLayer_of_data h hstarts.started hdata⟩
  | down p hstarts hdown =>
    constructor
    · intro hone hdone hclear
      -- The SSL shutdown is on the wrong layer of a clear link.
      obtain ⟨ops, hops, hlink⟩ := hone c' h (hstarts.handshakeDone.trans hdone)
      have hshutdown : [AsyncOp.sslShutdown] = ops :=
        List.append_cancel_left (hstarts.started.symm.trans hops)
      subst hshutdown
      rcases hlink .sslShutdown (List.mem_singleton.mpr rfl) with hdata | ⟨_, hsafe⟩
      · rcases hdata with hread | ⟨payload, hwrite⟩
        · cases hread
        · cases hwrite
      · rw [hclear] at hsafe
        cases hsafe
    · intro hup c'' h' hdone'
      cases h.symm.trans h'
      have hdone : c.handshakeDone = true := hstarts.handshakeDone.symm.trans hdone'
      refine ⟨[.sslShutdown], hstarts.started, fun op hop => ?_⟩
      rw [List.mem_singleton.mp hop]
      cases hsafe : c.safeLink with
      | true => exact Or.inr ⟨rfl, rfl⟩
      | false => cases (hdown hdone).symm.trans (hup hdone hsafe)

end LayersLemmas

end Connection

open Connection in
/-- A connection stays on the layer of its link in exactly those runs that do
not shut a clear link down. -/
theorem one_layer_iff (handshake : Message) (safeLink : Bool) (es : List Event) (c : Connection)
    (h : runEvents (step handshake) (init.run safeLink) es = some c) :
    AllSteps (step handshake) (OneLayer handshake) (init.run safeLink) es ↔
      AllSteps (step handshake) ClearStaysUp (init.run safeLink) es :=
  allSteps_congr (fun _ _ _ => step_linked) (fun _ _ _ => LayersLemmas.step_oneLayer)
    (run_linked safeLink) h

open Connection in
/-- A clear link that exchanges messages and is reset at the end. -/
theorem one_layer_iff_reset :
    AllSteps (step (.fromVector [9])) (OneLayer (.fromVector [9])) (init.run false)
      [.sslHandshake (.ok ()), .handshakeSent (.ok ()), .handshakeRead (.ok [1, 0, 0, 0, 9]),
        .send (.fromVector [1]), .read (.ok [1, 0, 0, 0, 7]), .wrote (.ok ()),
        .read (.error .reset)] :=
  (one_layer_iff (.fromVector [9]) false _ _ rfl).mpr (by decide +kernel)

open Connection in
/-- A clear link on which the peer sends a header without a length: `shutdown`
starts an SSL shutdown on the socket that carries clear frames. -/
theorem clear_link_shut_down_by_ssl :
    ∃ c c', runEvents (step (.fromVector [9])) (init.run false)
        [.sslHandshake (.ok ()), .handshakeSent (.ok ()), .handshakeRead (.ok [1, 0, 0, 0, 9])] =
          some c ∧
      c.handshakeDone = true ∧ c.safeLink = false ∧
      step (.fromVector [9]) c (.read (.ok [0, 0, 0, 0])) = some c' ∧
      c'.started = c.started ++ [.sslShutdown] ∧
      ¬OneLayer (.fromVector [9]) c (.read (.ok [0, 0, 0, 0])) := by
  refine ⟨_, _, rfl, rfl, rfl, rfl, rfl, fun hone => ?_⟩
  obtain ⟨ops, hops, hlink⟩ := hone _ rfl rfl
  have hshutdown : [AsyncOp.sslShutdown] = ops := List.append_cancel_left hops
  subst hshutdown
  rcases hlink .sslShutdown (List.mem_singleton.mpr rfl) with hdata | ⟨_, hsafe⟩
  · rcases hdata with hread | ⟨payload, hwrite⟩
    · cases hread
    · cases hwrite
  · cases hsafe

end Ian.Cluster
