import Ian.Cluster.Connection

/-!
# Incoming frames

`on_read` is an incremental decoder: `in_message_len_` and `read_buffer_` keep
the unfinished frame between two chunks. `onReads_decode` says that it agrees
with decoding the whole byte string in one pass, however it is cut into chunks.

A message that `send_message` takes is received as it is exactly when its size
is neither 0 nor beyond 32 bits (`received_iff`): the header 0 means "no length
read yet" to the decoder, and the encoder truncates the size to 32 bits.
-/

namespace Ian.Cluster

open Ian.Lib Ian.Common FramingLemmas

namespace Connection

/-- A read of the data stream is pending. -/
def reading (c : Connection) : Bool := c.pending.any AsyncOp.isRead

/-- Successive successful `on_read` calls, one per chunk, as long as a read is
pending. -/
def onReads (c : Connection) : List (List UInt8) → Connection
  | [] => c
  | chunk :: chunks =>
    match c.complete AsyncOp.isRead with
    | some c' => (c'.onRead (.ok chunk)).onReads chunks
    | none => c

/-- A connection that has just finished its handshake, as far as reading goes:
one read is pending and nothing is buffered. -/
structure ReadyToRead (c : Connection) : Prop where
  len : c.inMessageLen = 0
  buffer : c.readBuffer = []
  reads : ∃ layer, c.pending.filter AsyncOp.isRead = [.read layer]

end Connection

namespace DecodingLemmas

open Connection

/-! ## The loop -/

/-- The loop ends: its fuel only has to exceed the number of buffered bytes. -/
theorem readLoop_isSome (fuel : Nat) (c : Connection) (h : c.readBuffer.length < fuel) :
    (readLoop fuel c).isSome := by
  induction fuel generalizing c with
  | zero => exact absurd h (Nat.not_lt_zero _)
  | succ fuel ih =>
    unfold readLoop
    split
    · split
      · rfl
      · dsimp only
        split
        · rfl
        · next hshort hlen =>
          split
          · rfl
          · refine ih _ ?_
            simp only [takeMessage, takeLength, List.length_drop] at hlen ⊢
            omega
    · next hlen =>
      split
      · rfl
      · refine ih _ ?_
        simp only [takeMessage, List.length_drop]
        omega

/-- What a connection has decoded: `in_message_len_`, `read_buffer_` and the
messages processed, the rest of `c` being as it is. -/
def decoded (c : Connection) (payloads : List (List UInt8)) (len : Nat) (rest : List UInt8) :
    Connection :=
  { c with
    delivered := c.delivered ++ payloads.map .fromVector
    inMessageLen := len
    readBuffer := rest }

/-- How the loop ends on `bytes`, the bytes of the unfinished frame and all
that follow. -/
def loopEnd (c : Connection) (bytes : List UInt8) : Connection → Prop := fun c' =>
  match (decode bytes).2 with
  | .more len rest => c' = (decoded c (decode bytes).1 len rest).readNext
  | .rejected => ∃ rest, c' = (decoded c (decode bytes).1 0 rest).shutdown

theorem loopEnd_cons {c : Connection} {payload bytes more : List UInt8} {c' : Connection}
    (hdecode : decode bytes = (payload :: (decode more).1, (decode more).2)) {len : Nat}
    {rest : List UInt8} (h : loopEnd (decoded c [payload] len rest) more c') :
    loopEnd c bytes c' := by
  unfold loopEnd at h ⊢
  rw [hdecode]
  have happ : ∀ payloads len' rest', decoded (decoded c [payload] len rest) payloads len' rest' =
      decoded c (payload :: payloads) len' rest' := by
    intro payloads len' rest'
    simp only [decoded, List.map_cons, List.map_nil, List.append_assoc, List.singleton_append]
  generalize (decode more).2 = tail at h ⊢
  cases tail with
  | more len' rest' => rw [h, happ]
  | rejected =>
    obtain ⟨rest', hrest⟩ := h
    exact ⟨rest', by rw [hrest, happ]⟩

theorem decoded_self (c : Connection) : decoded c [] c.inMessageLen c.readBuffer = c := by
  simp only [decoded, List.map_nil, List.append_nil]

/-- Reading the length changes nothing about what is left to decode. -/
theorem loopEnd_takeLength {c c' : Connection} {bytes : List UInt8}
    (h : loopEnd c.takeLength bytes c') : loopEnd c bytes c' := by
  unfold loopEnd at h ⊢
  generalize decode bytes = d at h ⊢
  obtain ⟨payloads, tail⟩ := d
  cases tail with
  | more len rest => exact h
  | rejected => exact h

/-- The loop with the length of the next message known. -/
theorem readBody_decode {fuel : Nat}
    (ih : ∀ c c', c.readBuffer.length < fuel → c.inMessageLen < 2 ^ 32 →
      readLoop fuel c = some c' → loopEnd c (unfinished c.inMessageLen c.readBuffer) c')
    (c c' : Connection) (hfuel : c.readBuffer.length < fuel + 1) (hne : c.inMessageLen ≠ 0)
    (hlen : c.inMessageLen < 2 ^ 32)
    (hrun : (if c.readBuffer.length < c.inMessageLen then some c.readNext
      else readLoop fuel c.takeMessage) = some c') :
    loopEnd c (unfinished c.inMessageLen c.readBuffer) c' := by
  have hbytes : unfinished c.inMessageLen c.readBuffer = le32 c.inMessageLen ++ c.readBuffer :=
    if_neg hne
  have hread : readLe32 (le32 c.inMessageLen ++ c.readBuffer) = c.inMessageLen := by
    rw [readLe32_le32, Nat.mod_eq_of_lt hlen]
  have h4 : 4 ≤ (le32 c.inMessageLen ++ c.readBuffer).length := by
    rw [List.length_append, length_le32]
    omega
  rw [hbytes]
  split at hrun
  · next hshort =>
    cases hrun
    have hdecode := decode_cut h4 (by rw [hread]; exact hne)
      (by rw [hread, drop_le32]; exact hshort)
    rw [hread, drop_le32] at hdecode
    unfold loopEnd
    rw [hdecode]
    dsimp only
    rw [decoded_self]
  · next hwhole =>
    have hdecode := decode_frame h4 (by rw [hread]; exact hne)
      (by rw [hread, drop_le32]; exact Nat.le_of_not_lt hwhole)
    rw [hread, drop_le32] at hdecode
    refine loopEnd_cons hdecode (ih c.takeMessage c' ?_ (Nat.two_pow_pos 32) hrun)
    simp only [takeMessage, List.length_drop]
    omega

/-- The loop decodes the bytes that the unfinished frame and the buffer stand
for. The induction is on the fuel; each round reads one whole frame. -/
theorem readLoop_decode (fuel : Nat) (c c' : Connection) (hfuel : c.readBuffer.length < fuel)
    (hlen : c.inMessageLen < 2 ^ 32) (hrun : readLoop fuel c = some c') :
    loopEnd c (unfinished c.inMessageLen c.readBuffer) c' := by
  induction fuel generalizing c c' with
  | zero => exact absurd hfuel (Nat.not_lt_zero _)
  | succ fuel ih =>
    unfold readLoop at hrun
    split at hrun
    · next hzero =>
      rw [hzero, unfinished, if_pos rfl]
      split at hrun
      · next hshort =>
        cases hrun
        unfold loopEnd
        rw [decode_short hshort]
        dsimp only
        rw [← hzero, decoded_self]
      · next h4 =>
        have h4 := Nat.le_of_not_lt h4
        dsimp only at hrun
        split at hrun
        · next hheader =>
          cases hrun
          unfold loopEnd
          rw [decode_zero h4 hheader]
          refine ⟨c.readBuffer.drop 4, ?_⟩
          have hself := decoded_self c.takeLength
          rw [hheader] at hself
          rw [← hself]
          rfl
        · next hheader =>
          refine loopEnd_takeLength ?_
          have hbytes := le32_readLe32 h4
          have hshorter : c.takeLength.readBuffer.length < fuel + 1 := by
            simp only [takeLength, List.length_drop]
            omega
          have hbody := readBody_decode ih c.takeLength c' hshorter hheader (readLe32_lt _) hrun
          rw [unfinished, if_neg hheader] at hbody
          rw [← hbytes]
          exact hbody
    · next hne => exact readBody_decode ih c c' hfuel hne hlen hrun

theorem onRead_decode (c : Connection) (chunk : List UInt8) (hlen : c.inMessageLen < 2 ^ 32) :
    loopEnd c (unfinished c.inMessageLen c.readBuffer ++ chunk) (c.onRead (.ok chunk)) := by
  have hsome := readLoop_isSome _ { c with readBuffer := c.readBuffer ++ chunk }
    (Nat.lt_succ_self _)
  obtain ⟨c', hrun⟩ := Option.isSome_iff_exists.mp hsome
  have hdecode := readLoop_decode _ { c with readBuffer := c.readBuffer ++ chunk } c'
    (Nat.lt_succ_self _) hlen hrun
  have hread : c.onRead (.ok chunk) = c' := by
    show (readLoop _ _).getD _ = c'
    rw [hrun]
    rfl
  have hbytes : unfinished c.inMessageLen (c.readBuffer ++ chunk) =
      unfinished c.inMessageLen c.readBuffer ++ chunk := by
    unfold unfinished
    split
    · rfl
    · rw [List.append_assoc]
  rw [hread, ← hbytes]
  exact hdecode

/-! ## Chunk after chunk -/

theorem shutdown_pending (c : Connection) :
    c.shutdown.pending.filter AsyncOp.isRead = c.pending.filter AsyncOp.isRead := by
  unfold shutdown abort close
  dsimp only
  split
  · rfl
  split
  · split <;> rfl
  split
  · rfl
  · simp [start, AsyncOp.isRead]

theorem shutdown_delivered (c : Connection) : c.shutdown.delivered = c.delivered := by
  unfold shutdown abort close
  dsimp only
  split_ifs <;> rfl

theorem shutdown_shutdownCalls (c : Connection) :
    c.shutdown.shutdownCalls = c.shutdownCalls + 1 := by
  unfold shutdown abort close
  dsimp only
  split_ifs <;> rfl

/-- The connection reads frames: `in_message_len_` and `read_buffer_` hold an
unfinished frame, and one read is pending. -/
structure Reading (c : Connection) : Prop where
  unfinished : decode (unfinished c.inMessageLen c.readBuffer) =
    ([], .more c.inMessageLen c.readBuffer)
  len : c.inMessageLen < 2 ^ 32
  reads : ∃ layer, c.pending.filter AsyncOp.isRead = [.read layer]

theorem complete_reads {c : Connection}
    (h : ∃ layer, c.pending.filter AsyncOp.isRead = [.read layer]) :
    ∃ c', c.complete AsyncOp.isRead = some c' ∧ c' = { c with pending := c'.pending } ∧
      c'.pending.filter AsyncOp.isRead = [] := by
  obtain ⟨layer, hreads⟩ := h
  have hany : c.pending.any AsyncOp.isRead = true := by
    have hmem : AsyncOp.read layer ∈ c.pending.filter AsyncOp.isRead := by
      rw [hreads]
      exact List.mem_singleton_self _
    exact List.any_eq_true.mpr ⟨_, List.mem_of_mem_filter hmem, rfl⟩
  refine ⟨_, if_pos hany, rfl, ?_⟩
  show (c.pending.eraseP AsyncOp.isRead).filter AsyncOp.isRead = []
  rw [filter_eraseP_self, hreads]
  rfl

/-- What holds after reading chunks whose bytes, behind the unfinished frame of
`c`, are `bytes`. -/
def ReadUpTo (c : Connection) (bytes : List UInt8) (c' : Connection) : Prop :=
  c'.delivered = c.delivered ++ (decode bytes).1.map .fromVector ∧
  match (decode bytes).2 with
  | .more len rest => c'.inMessageLen = len ∧ c'.readBuffer = rest ∧
      c'.shutdownCalls = c.shutdownCalls ∧ c'.reading = true
  | .rejected => c'.shutdownCalls = c.shutdownCalls + 1 ∧ c'.reading = false

theorem reading_eq (c : Connection) :
    c.reading = !(c.pending.filter AsyncOp.isRead).isEmpty := by
  unfold reading
  induction c.pending with
  | nil => rfl
  | cons op ops ih =>
    cases hop : op.isRead with
    | true => simp [hop]
    | false => simp [hop, ih]

theorem onReads_stopped {c : Connection} (h : c.reading = false) (chunks : List (List UInt8)) :
    c.onReads chunks = c := by
  cases chunks with
  | nil => rfl
  | cons chunk chunks =>
    have hnone : c.complete AsyncOp.isRead = none := if_neg (by simpa [reading] using h)
    rw [onReads, hnone]

theorem onReads_readUpTo (chunks : List (List UInt8)) (c : Connection) (h : Reading c) :
    ReadUpTo c (unfinished c.inMessageLen c.readBuffer ++ chunks.flatten) (c.onReads chunks) := by
  induction chunks generalizing c with
  | nil =>
    obtain ⟨layer, hreads⟩ := h.reads
    rw [List.flatten_nil, List.append_nil]
    unfold ReadUpTo
    rw [h.unfinished]
    refine ⟨(List.append_nil _).symm, rfl, rfl, rfl, ?_⟩
    show c.reading = true
    rw [reading_eq, hreads]
    rfl
  | cons chunk chunks ih =>
    obtain ⟨c1, hcomplete, hc1, hnoreads⟩ := complete_reads h.reads
    have hend := onRead_decode c1 chunk (by rw [hc1]; exact h.len)
    have hunf : unfinished c1.inMessageLen c1.readBuffer =
        unfinished c.inMessageLen c.readBuffer := by rw [hc1]
    rw [onReads, hcomplete]
    dsimp only
    rw [hunf] at hend
    rw [List.flatten_cons, ← List.append_assoc]
    unfold ReadUpTo
    rw [decode_append (unfinished c.inMessageLen c.readBuffer ++ chunk)]
    unfold loopEnd at hend
    cases hdecode : decode (unfinished c.inMessageLen c.readBuffer ++ chunk) with
    | mk payloads tail =>
      rw [hdecode] at hend
      cases tail with
      | more len rest =>
        dsimp only at hend ⊢
        have htail : (decode (unfinished c.inMessageLen c.readBuffer ++ chunk)).2 =
            .more len rest := by rw [hdecode]
        obtain ⟨hunfinished, hlen⟩ := decode_unfinished htail
        have hreading : Reading (c1.onRead (.ok chunk)) := by
          rw [hend]
          refine ⟨hunfinished, hlen, (decoded c1 payloads len rest).layer, ?_⟩
          show (c1.pending ++ [_]).filter AsyncOp.isRead = _
          rw [List.filter_append, hnoreads]
          rfl
        have hrest := ih _ hreading
        rw [hend] at hrest ⊢
        unfold ReadUpTo at hrest
        obtain ⟨hdelivered, htail'⟩ := hrest
        refine ⟨?_, ?_⟩
        · rw [List.map_append, ← List.append_assoc]
          refine hdelivered.trans ?_
          rw [hc1]
          rfl
        · rw [hc1] at htail' ⊢
          exact htail'
      | rejected =>
        obtain ⟨rest, hc2⟩ := hend
        dsimp only
        have hstop : (c1.onRead (.ok chunk)).reading = false := by
          rw [reading_eq, hc2, shutdown_pending]
          show (!(c1.pending.filter AsyncOp.isRead).isEmpty) = false
          rw [hnoreads]
          rfl
        rw [onReads_stopped hstop]
        refine ⟨?_, ?_, hstop⟩
        · rw [hc2, shutdown_delivered, hc1]
          rfl
        · rw [hc2, shutdown_shutdownCalls, hc1]
          rfl

theorem doWriteMessage_started (c : Connection) (payload : List UInt8) :
    (c.doWriteMessage (.fromVector payload)).started =
      c.started ++ [.write c.layer (frame payload)] := rfl

theorem readyToRead_reading {c : Connection} (h : ReadyToRead c) : Reading c := by
  refine ⟨?_, ?_, h.reads⟩
  · rw [h.len, h.buffer]
    exact decode_nil
  · rw [h.len]
    decide

theorem onReads_ready {c : Connection} (h : ReadyToRead c) (chunks : List (List UInt8)) :
    ReadUpTo c chunks.flatten (c.onReads chunks) := by
  have hread := onReads_readUpTo chunks c (readyToRead_reading h)
  rw [h.len, h.buffer] at hread
  exact hread

/-- The frames of well-sized messages are handed over as these messages. -/
theorem onReads_frames {c : Connection} (h : ReadyToRead c) {messages : List (List UInt8)}
    {chunks : List (List UInt8)} (hmessages : ∀ m ∈ messages, Framable m)
    (hchunks : chunks.flatten = frames messages) :
    (c.onReads chunks).delivered = c.delivered ++ messages.map .fromVector ∧
    (c.onReads chunks).inMessageLen = 0 ∧ (c.onReads chunks).readBuffer = [] ∧
    (c.onReads chunks).shutdownCalls = c.shutdownCalls := by
  have hread := onReads_ready h chunks
  unfold ReadUpTo at hread
  rw [hchunks, decode_frames hmessages] at hread
  obtain ⟨hdelivered, hlen, hrest, hcalls, _⟩ := hread
  exact ⟨hdelivered, hlen, hrest, hcalls⟩

theorem readyToRead_init : ReadyToRead init.readNext := ⟨rfl, rfl, .clear, rfl⟩

end DecodingLemmas

open DecodingLemmas Connection

/-! ## The incremental decoder -/

/-- However a byte string is cut into chunks, successive `on_read` calls hand
over the messages of decoding it in one pass. They call `shutdown` exactly when
that pass meets a header that is 0, and then no further read is started;
otherwise what is buffered is what the pass leaves over. The loop ends on every
input. The frames that `do_write_message` emits for messages of 1 to 2^32-1
bytes are handed over as these messages, with nothing left and no shutdown. -/
theorem onReads_decode (c : Connection) (h : ReadyToRead c) :
    (∀ chunks : List (List UInt8), (∀ chunk ∈ chunks, chunk ≠ []) →
      let bytes := chunks.flatten
      let c' := c.onReads chunks
      c'.delivered = c.delivered ++ (decode bytes).1.map .fromVector ∧
      match (decode bytes).2 with
      | .more len rest => c'.inMessageLen = len ∧ c'.readBuffer = rest ∧
          c'.shutdownCalls = c.shutdownCalls ∧ c'.reading = true
      | .rejected => c'.shutdownCalls = c.shutdownCalls + 1 ∧ c'.reading = false) ∧
    (∀ (c : Connection) (fuel : Nat), c.readBuffer.length < fuel → (readLoop fuel c).isSome) ∧
    (∀ (c : Connection) (payload : List UInt8),
      (c.doWriteMessage (.fromVector payload)).started =
        c.started ++ [.write c.layer (frame payload)]) ∧
    ∀ (messages : List (List UInt8)) (chunks : List (List UInt8)),
      (∀ m ∈ messages, Framable m) → (∀ chunk ∈ chunks, chunk ≠ []) →
      chunks.flatten = frames messages →
      let c' := c.onReads chunks
      c'.delivered = c.delivered ++ messages.map .fromVector ∧ c'.inMessageLen = 0 ∧
        c'.readBuffer = [] ∧ c'.shutdownCalls = c.shutdownCalls := by
  refine ⟨fun chunks _ => onReads_ready h chunks, fun c fuel => readLoop_isSome fuel c,
    doWriteMessage_started, ?_⟩
  intro messages chunks hmessages _ hchunks
  exact onReads_frames h hmessages hchunks

theorem onReads_decode_init :
    (init.readNext.onReads [[1], [0, 0], [0, 7, 2]]).delivered = [.fromVector [7]] :=
  ((onReads_decode init.readNext readyToRead_init).1 [[1], [0, 0], [0, 7, 2]] (by decide)).1.trans
    (by simp [decode, readLe32, init, readNext, start])

/-! ## What the sender takes and the receiver accepts -/

/-- The receiver gets the message as it was sent: whatever write the sender
starts for it, its header is the size of the message, and in any chunking and
between any other frames the message is handed over and nothing is shut down. -/
def Received (m : Message) : Prop :=
  ∀ (sender : Connection) (op : AsyncOp),
    (sender.doWriteMessage m).started = sender.started ++ [op] →
    readLe32 op.data = m.bytes.length ∧
    ∀ (before after : List (List UInt8)), (∀ p ∈ before ++ after, Framable p) →
      ∀ (c : Connection) (chunks : List (List UInt8)), ReadyToRead c →
        chunks.flatten = frames before ++ op.data ++ frames after →
        (c.onReads chunks).delivered =
          c.delivered ++ before.map .fromVector ++ [m] ++ after.map .fromVector ∧
        (c.onReads chunks).shutdownCalls = c.shutdownCalls

namespace DecodingLemmas

theorem not_received_empty : ¬Received (.fromVector []) := by
  intro h
  obtain ⟨_, hread⟩ := h init (.write .clear (frame [])) rfl
  have hshut := hread [] [] (fun _ hp => (nomatch hp)) init.readNext [[0, 0, 0, 0]]
    readyToRead_init rfl
  have hcalls : (init.readNext.onReads [[0, 0, 0, 0]]).shutdownCalls = 1 := by decide
  rw [hcalls] at hshut
  cases hshut.2

/-- A message whose size fits the header is received. -/
theorem received_of_framable {m : Message} (hm : m.isEmpty = false) (hsize : Framable m.bytes) :
    Received m := by
  intro sender op hstarted
  have hop : op = .write sender.layer (frame m.bytes) := by
    rw [Message.eq_fromVector hm, doWriteMessage_started] at hstarted
    have hlast := List.append_cancel_left hstarted
    exact (List.singleton_injective hlast).symm
  subst hop
  refine ⟨?_, ?_⟩
  · show readLe32 (frame m.bytes) = _
    rw [frame, readLe32_le32, Nat.mod_eq_of_lt hsize.2]
  · intro before after hothers c chunks hc hchunks
    have hall : ∀ p ∈ before ++ [m.bytes] ++ after, Framable p := by
      intro p hp
      rcases List.mem_append.mp hp with hp | hp
      · rcases List.mem_append.mp hp with hp | hp
        · exact hothers p (List.mem_append_left _ hp)
        · rw [List.mem_singleton.mp hp]
          exact hsize
      · exact hothers p (List.mem_append_right _ hp)
    have hflat : chunks.flatten = frames (before ++ [m.bytes] ++ after) := by
      rw [hchunks]
      simp [frames, AsyncOp.data]
    obtain ⟨hdelivered, _, _, hcalls⟩ := onReads_frames hc hall hflat
    refine ⟨?_, hcalls⟩
    rw [hdelivered]
    simp only [List.map_append, List.map_cons, List.map_nil, List.append_assoc]
    rw [← Message.eq_fromVector hm]

end DecodingLemmas

/-- A message that `send_message` takes is received as it is exactly when its
size is neither 0 nor too large for 32 bits. -/
theorem received_iff (m : Message) (hm : m.isEmpty = false) :
    Received m ↔ 0 < m.bytes.length ∧ m.bytes.length < 2 ^ 32 := by
  constructor
  · intro h
    refine ⟨Nat.pos_of_ne_zero fun hzero => ?_, ?_⟩
    · have hempty := Message.eq_fromVector hm
      rw [List.length_eq_zero_iff.mp hzero] at hempty
      rw [hempty] at h
      exact not_received_empty h
    · have hstarted : (init.doWriteMessage m).started = [.write .clear (frame m.bytes)] := by
        rw [Message.eq_fromVector hm]
        rfl
      rw [← (h init _ hstarted).1]
      exact readLe32_lt _
  · exact fun hsize => received_of_framable hm hsize

theorem received_iff_one_byte : Received (.fromVector [7]) :=
  (received_iff (.fromVector [7]) rfl).mpr (by decide)

/-- The message of an empty vector is taken and not received. -/
theorem emptyVector_taken_not_received :
    (Message.fromVector []).isEmpty = false ∧ ¬Received (.fromVector []) :=
  ⟨rfl, not_received_empty⟩

end Ian.Cluster
