import Ian.Happy.Simulation
import Mathlib.Data.List.GetD

/-!
# The refilling, trimming buffer

`peek_at` and `trim_opportunity` over a `StreamReader`, and the two sources the
buffer is compared with:

* `memorySource`: the same stream held whole, with a cursor;
* `traced`: any source, logging every state it passes through.

`buffer_memory_sim` is the simulation between the (traced) buffer and the
stream in memory. It holds for every way the reader cuts the stream, and it
carries the buffer invariant `Sound` of every state passed through as long as
the cursor stays inside the stream.
-/

namespace Ian.Happy

open Ian.Lib Run

/-- `StreamReader::read` on a reader whose own state is `ρ`: the bytes stored
at `output_ptr` and the reader afterwards. -/
structure StreamReader (ρ : Type) where
  read : ρ → Nat → List UInt8 × ρ

/-- From state `r`, the reader delivers `s` in reads of 1 to `length` bytes and
then returns 0 for ever. -/
def Delivers {ρ : Type} (rd : StreamReader ρ) (r : ρ) (s : List UInt8) : Prop :=
  ∃ D : ρ → List UInt8 → Prop, D r s ∧ ∀ r s, D r s → ∀ length, 0 < length →
    (rd.read r length).1.length ≤ length ∧ ((rd.read r length).1 = [] → s = []) ∧
    ∃ rest, s = (rd.read r length).1 ++ rest ∧ D (rd.read r length).2 rest

/-- The buffer members of class `Parser`. -/
structure Buffer (ρ : Type) where
  buffer : List UInt8
  tmpBuffer : List UInt8
  bufferOffset : Nat
  reader : ρ

def Buffer.init {ρ : Type} (reader : ρ) : Buffer ρ :=
  { buffer := [], tmpBuffer := [], bufferOffset := 0, reader }

/-- `std::vector<char>::resize`. -/
def resize (v : List UInt8) (n : Nat) : List UInt8 :=
  v.take n ++ List.replicate (n - v.length) 0

/-- Store `out` over the bytes of `v` from index `i` on. -/
def storeAt (v : List UInt8) (i : Nat) (out : List UInt8) : List UInt8 :=
  v.take i ++ out ++ v.drop (i + out.length)

/-- The body of the refill loop of `peek_at`; returns `readlen`. -/
def refill {ρ : Type} (rd : StreamReader ρ) (offset : Nat) : Run (Buffer ρ) Exception Nat :=
  ⟨fun b =>
    let initialSize := b.buffer.length
    let grown := resize b.buffer (b.bufferOffset + offset + 0x0800)
    let read := rd.read b.reader (grown.length - initialSize)
    let readlen := read.1.length
    (.ok readlen,
      { b with
        buffer := resize (storeAt grown initialSize read.1) (initialSize + readlen)
        reader := read.2 })⟩

/-- `peek_at` over the buffer. -/
def Buffer.peekAt {ρ : Type} (rd : StreamReader ρ) (fuel offset : Nat) :
    Run (Buffer ρ) Exception UInt8 :=
  loop (fun (_ : Unit) => do
    let b ← gets id
    if b.bufferOffset + offset ≥ b.buffer.length then
      let readlen ← refill rd offset
      if readlen = 0 then
        pure (.done nul)
      else
        pure (.again ())
    else
      pure (.done (b.buffer.getD (b.bufferOffset + offset) nul))) fuel ()

/-- `trim_opportunity`; after the swap `tmp_buffer_` holds the old buffer. -/
def Buffer.trimOpportunity {ρ : Type} (b : Buffer ρ) : Buffer ρ :=
  if b.bufferOffset ≥ 0x4000 then
    { b with
      buffer := b.buffer.drop b.bufferOffset
      tmpBuffer := b.buffer
      bufferOffset := 0 }
  else b

/-- The parser's own source: its buffer, filled by a reader. -/
def bufferSource {ρ : Type} (rd : StreamReader ρ) (fuel : Nat) : Source (Buffer ρ) where
  peekAt := Buffer.peekAt rd fuel
  skip n b := { b with bufferOffset := b.bufferOffset + n }
  trimOpportunity := Buffer.trimOpportunity

/-- A stream held whole in memory. -/
structure Memory where
  text : List UInt8
  cursor : Nat

def Memory.unread (m : Memory) : List UInt8 := m.text.drop m.cursor

/-- The source that reads `s[i]`, or NUL past the end. -/
def memorySource : Source Memory where
  peekAt offset := gets fun m => m.text.getD (m.cursor + offset) nul
  skip n m := { m with cursor := m.cursor + n }
  trimOpportunity m := m

/-- A state of a source, how far the cursor has moved, and every state passed
through with the cursor there, latest first. -/
structure Trace (σ : Type) where
  state : σ
  cursor : Nat
  visited : List (σ × Nat)

/-- The trace extended by one state. -/
def Trace.push {σ : Type} (t : Trace σ) (state : σ) (cursor : Nat) : Trace σ :=
  { state, cursor, visited := (state, cursor) :: t.visited }

def Trace.init {σ : Type} (state : σ) : Trace σ :=
  { state, cursor := 0, visited := [(state, 0)] }

/-- A source that logs its states. -/
def traced {σ : Type} (src : Source σ) : Source (Trace σ) where
  peekAt offset := ⟨fun t =>
    (((src.peekAt offset).run t.state).1, t.push ((src.peekAt offset).run t.state).2 t.cursor)⟩
  skip n t := t.push (src.skip n t.state) (t.cursor + n)
  trimOpportunity t := t.push (src.trimOpportunity t.state) t.cursor

/-! ## Whole runs -/

/-- `Parser::parse` over a source. -/
def parseFrom {σ : Type} (src : Source σ) (source : σ) (filename : List UInt8) (fuel : Nat) :
    Outcome Exception AstRoot × Parser σ :=
  (parseDocument (scanner src fuel) fuel).run (Parser.init filename source)

/-- `Parser::parse(filename, reader)`. -/
def parse {ρ : Type} (rd : StreamReader ρ) (r : ρ) (filename : List UInt8) (fuel : Nat) :
    Outcome Exception AstRoot :=
  (parseFrom (bufferSource rd fuel) (Buffer.init r) filename fuel).1

/-- The same parser over the stream held whole in memory. -/
def parseMemory (s : List UInt8) (filename : List UInt8) (fuel : Nat) :
    Outcome Exception AstRoot :=
  (parseFrom memorySource ⟨s, 0⟩ filename fuel).1

/-- The buffer states `Parser::parse` passes through, each with the number of
bytes consumed by then. -/
def parseStates {ρ : Type} (rd : StreamReader ρ) (r : ρ) (filename : List UInt8) (fuel : Nat) :
    List (Buffer ρ × Nat) :=
  (parseFrom (traced (bufferSource rd fuel)) (Trace.init (Buffer.init r)) filename fuel).2
    |>.source.visited

/-- A sound buffer state: `buffer_offset_` is inside the buffer, and the
buffered bytes from it on are a prefix of the unread part of the stream. -/
def Sound {ρ : Type} (s : List UInt8) (v : Buffer ρ × Nat) : Prop :=
  v.1.bufferOffset ≤ v.1.buffer.length ∧ v.1.buffer.drop v.1.bufferOffset <+: s.drop v.2

/-! ## What one read does -/

namespace BufferLemmas

variable {ρ : Type} {rd : StreamReader ρ}

theorem delivers_read {r : ρ} {s : List UInt8} (h : Delivers rd r s) {n : Nat} (hn : 0 < n) :
    (rd.read r n).1.length ≤ n ∧ ((rd.read r n).1 = [] → s = []) ∧
    ∃ rest, s = (rd.read r n).1 ++ rest ∧ Delivers rd (rd.read r n).2 rest := by
  obtain ⟨D, hD, hstep⟩ := h
  obtain ⟨hle, hnil, rest, hs, hrest⟩ := hstep r s hD n hn
  exact ⟨hle, hnil, rest, hs, D, hrest, hstep⟩

theorem delivers_nil {r : ρ} {s : List UInt8} (h : Delivers rd r s) (h0 : Delivers rd r []) :
    s = [] := by
  obtain ⟨_, hnil, _⟩ := delivers_read h Nat.one_pos
  obtain ⟨_, _, rest, hs, _⟩ := delivers_read h0 Nat.one_pos
  exact hnil (List.append_eq_nil_iff.mp hs.symm).1

theorem length_resize (v : List UInt8) (n : Nat) : (resize v n).length = n := by
  simp only [resize, List.length_append, List.length_take, List.length_replicate]
  omega

/-- Growing the vector, reading into the new part and shrinking to what was
read appends what was read. -/
theorem resize_storeAt (v out : List UInt8) {n : Nat} (hv : v.length ≤ n) :
    resize (storeAt (resize v n) v.length out) (v.length + out.length) = v ++ out := by
  have htake : (resize v n).take v.length = v := by
    simp only [resize, List.take_of_length_le hv]
    simp
  have hlen : (storeAt (resize v n) v.length out).length ≥ v.length + out.length := by
    simp only [storeAt, htake, List.length_append]
    omega
  rw [resize, show v.length + out.length - (storeAt (resize v n) v.length out).length = 0 by omega]
  simp only [List.replicate_zero, List.append_nil, storeAt, htake]
  rw [List.take_append_of_le_length (by simp)]
  exact List.take_of_length_le (by simp)

theorem refill_run (rd : StreamReader ρ) (b : Buffer ρ) {offset : Nat}
    (hb : b.buffer.length ≤ b.bufferOffset + offset) :
    ∃ n, 0 < n ∧ (refill rd offset).run b =
      (.ok (rd.read b.reader n).1.length,
        { b with buffer := b.buffer ++ (rd.read b.reader n).1, reader := (rd.read b.reader n).2 })
    := by
  refine ⟨b.bufferOffset + offset + 0x0800 - b.buffer.length, by omega, ?_⟩
  simp only [refill, length_resize]
  rw [resize_storeAt _ _ (by omega)]

/-- `peek_at` answers with the byte of the unread stream, and leaves the
buffer with more of the same stream in it. -/
theorem peekAt_run (offset fuel : Nat) (b : Buffer ρ) (und : List UInt8)
    (hd : Delivers rd b.reader und) (hfuel : und.length < fuel) :
    ∃ b' und', (Buffer.peekAt rd fuel offset).run b =
        (.ok ((b.buffer ++ und).getD (b.bufferOffset + offset) nul), b') ∧
      b'.bufferOffset = b.bufferOffset ∧ Delivers rd b'.reader und' ∧
      b'.buffer ++ und' = b.buffer ++ und ∧ b.buffer.length ≤ b'.buffer.length ∧
      und'.length ≤ und.length ∧
      (b'.bufferOffset + offset < b'.buffer.length ∨ und' = []) := by
  induction fuel generalizing b und with
  | zero => exact absurd hfuel (Nat.not_lt_zero _)
  | succ fuel ih =>
    by_cases hin : b.bufferOffset + offset ≥ b.buffer.length
    · obtain ⟨n, hn, hrefill⟩ := refill_run rd b hin
      obtain ⟨_, hnil, rest, hund, hrest⟩ := delivers_read hd hn
      by_cases hread : (rd.read b.reader n).1 = []
      · have hu : und = [] := hnil hread
        have hr : rest = [] := by simpa [hread, hu] using hund
        refine ⟨{ b with reader := (rd.read b.reader n).2 }, [], ?_, rfl, hr ▸ hrest, by rw [hu],
          Nat.le_refl _, Nat.zero_le _, Or.inr rfl⟩
        rw [hread] at hrefill
        have hout : (b.buffer ++ und).getD (b.bufferOffset + offset) nul = nul := by
          rw [hu, List.append_nil, List.getD_eq_default _ _ hin]
        rw [hout]
        refine Run.loop_done ?_
        rw [Run.bind_ok (Run.run_gets id b), id, if_pos hin, Run.bind_ok hrefill]
        simp
      · have hlen : (rd.read b.reader n).1.length ≠ 0 := by simpa using hread
        have hstep : ∀ f, (Buffer.peekAt rd (f + 1) offset).run b =
            (Buffer.peekAt rd f offset).run
              { b with
                buffer := b.buffer ++ (rd.read b.reader n).1
                reader := (rd.read b.reader n).2 } := by
          intro f
          refine Run.loop_again ?_
          rw [Run.bind_ok (Run.run_gets id b), id, if_pos hin, Run.bind_ok hrefill, if_neg hlen]
          rfl
        have hlt : rest.length < fuel := by
          have := congrArg List.length hund
          rw [List.length_append] at this
          omega
        obtain ⟨b', und', hrun, hoff, hd', hall, hmono, hund', hin'⟩ :=
          ih { b with
            buffer := b.buffer ++ (rd.read b.reader n).1
            reader := (rd.read b.reader n).2 } rest hrest hlt
        refine ⟨b', und', ?_, hoff, hd', ?_, ?_, ?_, hin'⟩
        · rw [hstep, hrun, hund]
          simp
        · rw [hall, hund]
          simp
        · simp only [List.length_append] at hmono
          omega
        · have := congrArg List.length hund
          rw [List.length_append] at this
          omega
    · refine ⟨b, und, ?_, rfl, hd, rfl, Nat.le_refl _, Nat.le_refl _, Or.inl (by omega)⟩
      refine Run.loop_done ?_
      rw [Run.bind_ok (Run.run_gets id b), id, if_neg hin]
      rw [List.getD_append _ _ _ _ (by omega)]
      rfl

end BufferLemmas

open BufferLemmas

/-! ## The buffer against the stream in memory -/

/-- The relation between the traced buffer and the stream in memory. The
unread part of `s` is what the buffer and the reader still hold, from
`buffer_offset_` on. -/
structure BufferRel {ρ : Type} (rd : StreamReader ρ) (s : List UInt8) (t : Trace (Buffer ρ))
    (m : Memory) : Prop where
  text : m.text = s
  cursor : t.cursor = m.cursor
  unread : ∃ und, Delivers rd t.state.reader und ∧ und.length ≤ s.length ∧
    (t.state.buffer ++ und).drop t.state.bufferOffset = s.drop m.cursor ∧
    (t.state.bufferOffset ≤ t.state.buffer.length ∨ und = [])
  inside : m.cursor ≤ s.length → t.state.bufferOffset ≤ t.state.buffer.length
  sound : m.cursor ≤ s.length → ∀ v ∈ t.visited, Sound s v

/-- The byte at `offset` has been read: it is in the buffer, or the reader has
nothing left. -/
def BufferPeeked {ρ : Type} (rd : StreamReader ρ) (offset : Nat) (t : Trace (Buffer ρ))
    (_ : Memory) : Prop :=
  t.state.bufferOffset + offset < t.state.buffer.length ∨ Delivers rd t.state.reader []

namespace BufferLemmas

variable {ρ : Type} {rd : StreamReader ρ} {s : List UInt8}

/-- Passing to buffer state `b` while the cursor moves by `n` keeps the
relation, if `b` and the reader hold the rest of the stream. -/
theorem rel_push {t : Trace (Buffer ρ)} {m : Memory} (h : BufferRel rd s t m) {b : Buffer ρ}
    {und : List UInt8} (n : Nat) (hd : Delivers rd b.reader und) (hle : und.length ≤ s.length)
    (hall : (b.buffer ++ und).drop b.bufferOffset = s.drop (m.cursor + n))
    (hin : b.bufferOffset ≤ b.buffer.length ∨ und = [])
    (hinside : m.cursor + n ≤ s.length → b.bufferOffset ≤ b.buffer.length) :
    BufferRel rd s (t.push b (t.cursor + n)) { m with cursor := m.cursor + n } := by
  refine ⟨h.text, congrArg (· + n) h.cursor, ⟨und, hd, hle, hall, hin⟩, hinside, ?_⟩
  intro hcur v hv
  rcases List.mem_cons.mp hv with rfl | hv
  · refine ⟨hinside hcur, und, ?_⟩
    show b.buffer.drop b.bufferOffset ++ und = s.drop (t.cursor + n)
    rw [h.cursor, ← hall, List.drop_append_of_le_length (hinside hcur)]
  · exact h.sound (Nat.le_trans (Nat.le_add_right _ _) hcur) v hv

theorem peekAt_rel {fuel : Nat} (hfuel : s.length < fuel) (offset : Nat) (t : Trace (Buffer ρ))
    (m : Memory) (h : BufferRel rd s t m) :
    (((traced (bufferSource rd fuel)).peekAt offset).run t).1 =
        ((memorySource.peekAt offset).run m).1 ∧
      BufferRel rd s (((traced (bufferSource rd fuel)).peekAt offset).run t).2
        ((memorySource.peekAt offset).run m).2 ∧
      BufferPeeked rd offset (((traced (bufferSource rd fuel)).peekAt offset).run t).2
        ((memorySource.peekAt offset).run m).2 := by
  obtain ⟨und, hd, hle, hall, hin⟩ := h.unread
  obtain ⟨b', und', hrun, hoff, hd', hall', hmono, hle', hin'⟩ :=
    peekAt_run offset fuel t.state und hd (by omega)
  have hbyte : (t.state.buffer ++ und).getD (t.state.bufferOffset + offset) nul =
      m.text.getD (m.cursor + offset) nul := by
    simp only [List.getD_eq_getElem?_getD, ← List.getElem?_drop, hall, h.text]
  have hunread : (b'.buffer ++ und').drop b'.bufferOffset = s.drop m.cursor := by
    rw [hall', hoff, hall]
  have hoff' : t.state.bufferOffset ≤ t.state.buffer.length ∨ und = [] →
      b'.bufferOffset ≤ b'.buffer.length ∨ und' = [] := by
    rintro (hin | hin)
    · exact Or.inl (by omega)
    · exact Or.inr (by rw [hin] at hle'; exact List.eq_nil_of_length_eq_zero (by simpa using hle'))
  have hstate : (((traced (bufferSource rd fuel)).peekAt offset).run t) =
      (.ok (m.text.getD (m.cursor + offset) nul), t.push b' t.cursor) := by
    show (((Buffer.peekAt rd fuel offset).run t.state).1,
      t.push ((Buffer.peekAt rd fuel offset).run t.state).2 t.cursor) = _
    rw [hrun, hbyte]
  have hinside : m.cursor ≤ s.length → b'.bufferOffset ≤ b'.buffer.length := by
    intro hcur
    have := h.inside hcur
    omega
  rw [hstate]
  refine ⟨rfl, rel_push h 0 hd' (by omega) hunread (hoff' hin) hinside, ?_⟩
  rcases hin' with hin' | hin'
  · exact Or.inl hin'
  · exact Or.inr (hin' ▸ hd')

theorem skip_rel {fuel : Nat} {n : Nat} {t : Trace (Buffer ρ)} {m : Memory}
    (h : BufferRel rd s t m) (hn : n = 0 ∨ BufferPeeked rd (n - 1) t m) :
    BufferRel rd s ((traced (bufferSource rd fuel)).skip n t) (memorySource.skip n m) := by
  obtain ⟨und, hd, hle, hall, hin⟩ := h.unread
  have hunread : (t.state.buffer ++ und).drop (t.state.bufferOffset + n) =
      s.drop (m.cursor + n) := by
    rw [← List.drop_drop, hall, List.drop_drop]
  have hlen := congrArg List.length hall
  simp only [List.length_drop, List.length_append] at hlen
  have hoff : t.state.bufferOffset + n ≤ t.state.buffer.length ∨ und = [] := by
    rcases hn with rfl | hk | hdrained
    · exact hin
    · exact Or.inl (by omega)
    · exact Or.inr (delivers_nil hd hdrained)
  have hinside : m.cursor + n ≤ s.length → t.state.bufferOffset + n ≤ t.state.buffer.length := by
    intro hcur
    have := h.inside (by omega)
    rcases hoff with hoff | hnil
    · exact hoff
    · rw [hnil, List.length_nil] at hlen
      omega
  exact rel_push h n hd hle hunread hoff hinside

theorem trim_unread {b : Buffer ρ} {und : List UInt8}
    (hin : b.bufferOffset ≤ b.buffer.length ∨ und = []) :
    (b.trimOpportunity.buffer ++ und).drop b.trimOpportunity.bufferOffset =
      (b.buffer ++ und).drop b.bufferOffset := by
  unfold Buffer.trimOpportunity
  split
  · rcases hin with hin | rfl
    · rw [List.drop_zero, List.drop_append_of_le_length hin]
    · simp
  · rfl

theorem trim_inside {b : Buffer ρ} :
    b.trimOpportunity.bufferOffset ≤ b.trimOpportunity.buffer.length ∨
      b.trimOpportunity = b := by
  unfold Buffer.trimOpportunity
  split
  · exact Or.inl (Nat.zero_le _)
  · exact Or.inr rfl

theorem trim_reader (b : Buffer ρ) : b.trimOpportunity.reader = b.reader := by
  unfold Buffer.trimOpportunity
  split <;> rfl

theorem trim_rel {fuel : Nat} {t : Trace (Buffer ρ)} {m : Memory} (h : BufferRel rd s t m) :
    BufferRel rd s ((traced (bufferSource rd fuel)).trimOpportunity t)
      (memorySource.trimOpportunity m) := by
  obtain ⟨und, hd, hle, hall, hin⟩ := h.unread
  have hunread := (trim_unread hin).trans hall
  have hinside : m.cursor ≤ s.length →
      t.state.trimOpportunity.bufferOffset ≤ t.state.trimOpportunity.buffer.length := by
    intro hcur
    rcases trim_inside (b := t.state) with htrim | htrim
    · exact htrim
    · rw [htrim]
      exact h.inside hcur
  refine rel_push h 0 (b := t.state.trimOpportunity) ?_ hle hunread ?_ hinside
  · rw [trim_reader]
    exact hd
  · rcases trim_inside (b := t.state) with htrim | htrim
    · exact Or.inl htrim
    · rw [htrim]
      exact hin

theorem traced_sim {σ : Type} (src : Source σ) :
    SourceSim src (traced src) (fun b t => t.state = b) (fun _ _ _ => True) where
  peekAt := by
    rintro k b t rfl
    exact ⟨rfl, rfl, trivial⟩
  skipZero := by
    rintro b t rfl
    rfl
  skipSucc := by
    rintro n b t rfl _
    rfl
  trim := by
    rintro b t rfl
    rfl

end BufferLemmas

/-- The simulation: with more fuel than the stream is long, the operations of
the buffer and of the stream in memory agree and keep `BufferRel`. -/
theorem buffer_memory_sim {ρ : Type} (rd : StreamReader ρ) (s : List UInt8) {fuel : Nat}
    (hfuel : s.length < fuel) :
    SourceSim (traced (bufferSource rd fuel)) memorySource (BufferRel rd s)
      (BufferPeeked rd) where
  peekAt := peekAt_rel hfuel
  skipZero := fun _ _ h => skip_rel h (Or.inl rfl)
  skipSucc := fun _ _ _ h hk => skip_rel h (Or.inr hk)
  trim := fun _ _ h => trim_rel h

theorem bufferRel_init {ρ : Type} {rd : StreamReader ρ} {r : ρ} {s : List UInt8}
    (h : Delivers rd r s) : BufferRel rd s (Trace.init (Buffer.init r)) ⟨s, 0⟩ where
  text := rfl
  cursor := rfl
  unread := ⟨s, h, Nat.le_refl _, rfl, Or.inl (Nat.le_refl _)⟩
  inside := fun _ => Nat.le_refl _
  sound := by
    intro _ v hv
    rw [List.mem_singleton.mp hv]
    exact ⟨Nat.le_refl _, List.nil_prefix⟩

/-- Logging the states changes nothing. -/
theorem parse_eq_traced {ρ : Type} (rd : StreamReader ρ) (r : ρ) (filename : List UInt8)
    (fuel : Nat) :
    parse rd r filename fuel =
      (parseFrom (traced (bufferSource rd fuel)) (Trace.init (Buffer.init r)) filename fuel).1 :=
  (parseDocument_sim (scanner_sim (traced_sim (bufferSource rd fuel)) fuel) fuel _ _
    ⟨rfl, rfl, rfl⟩).1

/-- The parser over a reader and over the stream in memory end alike, in
related states. -/
theorem parseFrom_memory {ρ : Type} {rd : StreamReader ρ} {r : ρ} {s : List UInt8}
    (h : Delivers rd r s) (filename : List UInt8) {fuel : Nat} (hfuel : s.length < fuel) :
    parse rd r filename fuel = parseMemory s filename fuel ∧
    BufferRel rd s
      (parseFrom (traced (bufferSource rd fuel)) (Trace.init (Buffer.init r)) filename
        fuel).2.source
      (parseFrom memorySource ⟨s, 0⟩ filename fuel).2.source := by
  have hsim := parseDocument_sim (scanner_sim (buffer_memory_sim rd s hfuel) fuel) fuel
    (Parser.init filename (Trace.init (Buffer.init r))) (Parser.init filename ⟨s, 0⟩)
    ⟨bufferRel_init h, rfl, rfl⟩
  exact ⟨(parse_eq_traced rd r filename fuel).trans hsim.1, hsim.2.1⟩

end Ian.Happy
