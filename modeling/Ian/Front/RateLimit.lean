import Ian.Front.Ending
import Ian.Lib.Limiter

/-!
# The inbound rate limiter

`check_rate_limit` is the limiter of `Lib.Limiter`, with a window of a second:
as long as it has not aborted the connection, a message that is read is an
arrival, and the other handlers leave the counters alone (`run_metered`). After
it has aborted the connection no message is read any more, because the only
read in progress is the one that has completed.

Main result:
  * `rate_limit_fair`: over every run, no client that keeps to the limits is
    aborted, and all others are let through at most twice the limit and one
    message in a window.
-/

namespace Ian.Front

open Ian.Lib Ian.Common

/-- An operation of the chain from the SSL handshake to the reads: each is
started by the handler of the one before. -/
def WsOp.isChain : WsOp → Bool
  | .sslHandshake => true
  | .requestRead => true
  | .wsHandshake => true
  | .read => true
  | _ => false

/-- The limits of `check_rate_limit`. -/
def rateLimits (settings : Settings) : Limits :=
  ⟨seconds 1, settings.rateLimitMessages.toNat, settings.rateLimitBytes.toNat⟩

namespace WsConnection

/-- The message of a successful read, as the rate limiter sees it. -/
def arrival (c : WsConnection) : WsEvent → List Arrival
  | .read (.ok inbound) => [⟨c.now, inbound.data.length⟩]
  | _ => []

/-- The message of a successful read that `check_rate_limit` lets through. -/
def letThrough (settings : Settings) (c : WsConnection) : WsEvent → List Arrival
  | .read (.ok inbound) =>
    if ((c.counted inbound).checkRateLimit settings).1 then [] else [⟨c.now, inbound.data.length⟩]
  | _ => []

/-- `check_rate_limit` does not abort the connection. -/
def Spared (settings : Settings) (c : WsConnection) : WsEvent → Prop
  | .read (.ok inbound) => ((c.counted inbound).checkRateLimit settings).1 = false
  | _ => True

/-- After a message let through the counters are within the limits. -/
def CountersWithin (settings : Settings) (c : WsConnection) (e : WsEvent) : Prop :=
  c.letThrough settings e ≠ [] → ∀ c', step settings c e = some c' →
    c'.rateLimitMessages ≤ settings.rateLimitMessages ∧
      (c'.rateLimitBytes : Int) ≤ settings.rateLimitBytes

/-- A handler that leaves the rate limiter alone and starts at most `n`
operations of the chain. -/
structure Unmetered (c c' : WsConnection) (n : Nat) : Prop where
  start : c'.rateLimitStart = c.rateLimitStart
  messages : c'.rateLimitMessages = c.rateLimitMessages
  bytes : c'.rateLimitBytes = c.rateLimitBytes
  now : c'.now = c.now
  chain : c'.pending.countP WsOp.isChain ≤ c.pending.countP WsOp.isChain + n

variable {c c' c'' : WsConnection} {settings : Settings}

theorem Unmetered.refl (c : WsConnection) (n : Nat) : Unmetered c c n :=
  ⟨rfl, rfl, rfl, rfl, Nat.le_add_right _ _⟩

theorem Unmetered.trans {n n' : Nat} (h : Unmetered c c' n) (h' : Unmetered c' c'' n') :
    Unmetered c c'' (n + n') where
  start := h'.start.trans h.start
  messages := h'.messages.trans h.messages
  bytes := h'.bytes.trans h.bytes
  now := h'.now.trans h.now
  chain := by
    have hle := h.chain
    have hle' := h'.chain
    omega

namespace RateLimitLemmas

open WsWritingLemmas

/-! ## Handlers that do not count -/

theorem start_unmetered (c : WsConnection) (op : WsOp) : Unmetered c (c.start op) 1 := by
  refine ⟨rfl, rfl, rfl, rfl, ?_⟩
  show (c.pending ++ [op]).countP WsOp.isChain ≤ _
  rw [List.countP_append, List.countP_singleton]
  split <;> omega

theorem start_other {op : WsOp} (hop : op.isChain = false) (c : WsConnection) (n : Nat) :
    Unmetered c (c.start op) n := by
  refine ⟨rfl, rfl, rfl, rfl, ?_⟩
  show (c.pending ++ [op]).countP WsOp.isChain ≤ _
  rw [List.countP_append, List.countP_singleton, if_neg (by simp [hop])]
  omega

theorem abort_unmetered (c : WsConnection) (n : Nat) : Unmetered c c.abort n := by
  unfold abort
  split
  · exact Unmetered.refl c n
  · exact ⟨rfl, rfl, rfl, rfl, Nat.le_add_right _ _⟩

theorem shutdown_unmetered (c : WsConnection) (n : Nat) : Unmetered c c.shutdown n := by
  unfold shutdown
  dsimp only
  split
  · exact Unmetered.refl c n
  split
  · exact ⟨rfl, rfl, rfl, rfl, Nat.le_add_right _ _⟩
  · have hstart : Unmetered c.cancelAll (c.cancelAll.start .sslShutdown) n := start_other rfl _ n
    exact ⟨rfl, rfl, rfl, rfl, hstart.chain⟩

theorem handleError_unmetered (c : WsConnection) (ec : ErrorKind) (n : Nat) :
    Unmetered c (c.handleError ec) n := by
  unfold handleError
  split
  · exact Unmetered.refl c n
  cases ec with
  | reset => exact abort_unmetered c n
  | canceled => exact Unmetered.refl c n
  | other => exact shutdown_unmetered c n

theorem onSslHandshake_unmetered (c : WsConnection) (result : Except ErrorKind Unit) :
    Unmetered c (c.onSslHandshake result) 1 := by
  cases result with
  | error ec => exact abort_unmetered c 1
  | ok u => exact start_unmetered c .requestRead

theorem onReadRequest_unmetered (settings : Settings) (c : WsConnection)
    (result : Except ErrorKind Request) (active : Int) :
    Unmetered c (c.onReadRequest settings result active) 1 := by
  cases result with
  | error ec => exact handleError_unmetered c ec 1
  | ok request =>
    have hbuffer : Unmetered c (if 0 < (c.readBuffer ++ request.leftover).length then
        { c with readBuffer := [] }
        else { c with readBuffer := c.readBuffer ++ request.leftover }) 0 := by
      split <;> exact ⟨rfl, rfl, rfl, rfl, Nat.le_refl _⟩
    have hrespond : ∀ (c1 : WsConnection) response, Unmetered c c1 0 →
        Unmetered c (c1.respond response) 1 := by
      intro c1 response h
      have hlog : Unmetered c { c1 with responses := c1.responses ++ [response] } 0 :=
        ⟨h.start, h.messages, h.bytes, h.now, h.chain⟩
      exact hlog.trans (shutdown_unmetered _ 1)
    unfold onReadRequest
    dsimp only
    split
    · exact hrespond _ _ hbuffer
    split
    · exact hbuffer.trans (start_unmetered _ .wsHandshake)
    · exact hrespond _ _ hbuffer

theorem onWsHandshake_unmetered (settings : Settings) (c : WsConnection)
    (result : Except ErrorKind Unit) : Unmetered c (c.onWsHandshake settings result) 1 := by
  unfold onWsHandshake
  split
  · exact Unmetered.refl c 1
  cases result with
  | error ec => exact shutdown_unmetered c 1
  | ok u =>
    have harmed : Unmetered c ({ c with upgraded := true }.setTimeout
        (seconds (settings.wsTimeout + 5))) 0 := ⟨rfl, rfl, rfl, rfl, Nat.le_refl _⟩
    exact harmed.trans (start_unmetered _ .read)

theorem doWriteMessage_unmetered (c : WsConnection) (m : Message) :
    Unmetered c (c.doWriteMessage m) 0 := by
  have hassign : Unmetered c (c.assignOutbound m) 0 := ⟨rfl, rfl, rfl, rfl, Nat.le_refl _⟩
  unfold doWriteMessage
  dsimp only
  split
  · exact ⟨rfl, rfl, rfl, rfl, Nat.le_refl _⟩
  · exact hassign.trans (start_other rfl _ 0)

theorem sendMessage_unmetered (c : WsConnection) (m : Message) :
    Unmetered c (c.sendMessage m) 0 := by
  unfold sendMessage sendMessageBody
  dsimp only
  split
  · exact Unmetered.refl c 0
  split
  · exact Unmetered.refl c 0
  split
  · have htaken : Unmetered c { c with accepted := c.accepted ++ [m], isWriting := true } 0 :=
      ⟨rfl, rfl, rfl, rfl, Nat.le_refl _⟩
    exact htaken.trans (doWriteMessage_unmetered _ m)
  split <;> exact ⟨rfl, rfl, rfl, rfl, Nat.le_refl _⟩

theorem onWriteMessage_unmetered (c : WsConnection) (result : Except ErrorKind Unit) :
    Unmetered c (c.onWriteMessage result) 0 := by
  cases result with
  | error ec =>
    have hassign : Unmetered c { c.assignOutbound .empty with writeFailed := true } 0 :=
      ⟨rfl, rfl, rfl, rfl, Nat.le_refl _⟩
    exact hassign.trans (handleError_unmetered _ ec 0)
  | ok u =>
    have hassign : ∀ queue, Unmetered c { c.assignOutbound .empty with
        completed := c.completed ++ [c.messageOutbound], messageQueue := queue } 0 :=
      fun _ => ⟨rfl, rfl, rfl, rfl, Nat.le_refl _⟩
    unfold onWriteMessage writeQueued
    dsimp only
    split
    · exact ⟨rfl, rfl, rfl, rfl, Nat.le_refl _⟩
    · exact ⟨rfl, rfl, rfl, rfl, Nat.le_refl _⟩
    · exact (hassign _).trans (doWriteMessage_unmetered _ _)

theorem onTimeout_unmetered (c : WsConnection) (state : WaitState) :
    Unmetered c (c.onTimeout state) 0 := by
  unfold onTimeout
  split
  · exact Unmetered.refl c 0
  · exact abort_unmetered c 0

theorem onShutdown_unmetered (c : WsConnection) (result : Except ErrorKind Unit) :
    Unmetered c (c.onShutdown result) 0 := by
  unfold onShutdown
  split
  · exact Unmetered.refl c 0
  · exact ⟨rfl, rfl, rfl, rfl, Nat.le_refl _⟩

theorem setTimer_unmetered (c : WsConnection) (t : Timer Unit) (id : TimerId) :
    Unmetered c (c.setTimer t id) 0 := by
  cases id <;> exact ⟨rfl, rfl, rfl, rfl, Nat.le_refl _⟩

theorem without_chain {op : WsOp} (hop : op.isChain = true)
    (hany : c.pending.any (· == op) = true) :
    (c.without (· == op)).pending.countP WsOp.isChain + 1 = c.pending.countP WsOp.isChain :=
  countP_eraseP_of_imp (fun _ h => by rw [eq_of_beq h]; exact hop) hany

/-- The handler of an operation of the chain may start the next one. -/
theorem complete_unmetered {op : WsOp} (hop : op.isChain = true)
    (hany : c.pending.any (· == op) = true) (hhandled : Unmetered (c.without (· == op)) c' 1) :
    Unmetered c c' 0 := by
  have hcount := without_chain hop hany
  have hchain := hhandled.chain
  exact ⟨hhandled.start, hhandled.messages, hhandled.bytes, hhandled.now, by omega⟩

theorem without_unmetered (c : WsConnection) (p : WsOp → Bool) : Unmetered c (c.without p) 0 :=
  ⟨rfl, rfl, rfl, rfl, List.eraseP_sublist.countP_le⟩

/-- Steps other than a successful read leave the rate limiter alone; the clock
may go on. -/
theorem step_unmetered {e : WsEvent} (h : step settings c e = some c')
    (hread : ∀ inbound, e ≠ .read (.ok inbound)) : c.now ≤ c'.now ∧
      Unmetered c { c' with now := c.now } 0 := by
  have hstill : Unmetered c c' 0 → c.now ≤ c'.now ∧ Unmetered c { c' with now := c.now } 0 :=
    fun h => ⟨Int.le_of_eq h.now.symm, h.start, h.messages, h.bytes, rfl, h.chain⟩
  cases (step_cases h).2 with
  | send message => exact hstill (sendMessage_unmetered c message)
  | sslHandshake result hany =>
    exact hstill (complete_unmetered rfl hany (onSslHandshake_unmetered _ result))
  | requestRead result active hany =>
    exact hstill (complete_unmetered rfl hany (onReadRequest_unmetered settings _ result active))
  | wsHandshake result hany =>
    exact hstill (complete_unmetered rfl hany (onWsHandshake_unmetered settings _ result))
  | read result hany =>
    cases result with
    | error ec => exact hstill (complete_unmetered rfl hany (handleError_unmetered _ ec 1))
    | ok inbound => exact absurd rfl (hread inbound)
  | wrote result =>
    exact hstill ((without_unmetered c _).trans (onWriteMessage_unmetered _ result))
  | shutdownDone result =>
    exact hstill ((without_unmetered c _).trans (onShutdown_unmetered _ result))
  | tick duration =>
    exact ⟨by show c.now ≤ c.now + _; omega, rfl, rfl, rfl, rfl, Nat.le_refl _⟩
  | expire id t => exact hstill (setTimer_unmetered c t id)
  | timeout id i w t =>
    exact hstill ((setTimer_unmetered c t id).trans (onTimeout_unmetered _ w.state))

/-! ## Reads -/

theorem limited_without (settings : Settings) (c : WsConnection) (inbound : Inbound)
    (p : WsOp → Bool) : ((c.without p).counted inbound).limited settings =
      ((c.counted inbound).limited settings).without p := by
  have hover : ((c.without p).counted inbound).overLimit settings =
      (c.counted inbound).overLimit settings := rfl
  unfold limited
  rw [hover]
  split <;> rfl

theorem limited_pending (settings : Settings) (c : WsConnection) (inbound : Inbound) :
    ((c.counted inbound).limited settings).pending = c.pending := by
  unfold limited
  split <;> rfl

theorem takeMessage_unmetered (settings : Settings) (c : WsConnection) (readlen : Nat) :
    Unmetered c (c.takeMessage settings readlen) 1 := by
  have hstart := start_unmetered { c with readBuffer := c.readBuffer.drop readlen } .read
  unfold takeMessage
  dsimp only
  split <;> exact ⟨rfl, rfl, rfl, rfl, hstart.chain⟩

/-- A successful read: the message is the last one, or it is let through and the
next read may be started. -/
theorem step_read {inbound : Inbound} (h : step settings c (.read (.ok inbound)) = some c') :
    ((c.counted inbound).rateKill settings = true ∧ c'.now = c.now ∧
      c'.pending.countP WsOp.isChain + 1 ≤ c.pending.countP WsOp.isChain) ∨
    ((c.counted inbound).rateKill settings = false ∧
      Unmetered ((c.counted inbound).limited settings) c' 0) := by
  obtain ⟨hany, rfl⟩ : c.pending.any (· == .read) = true ∧
      c' = (c.without (· == .read)).onRead settings (.ok inbound) := by
    cases (step_cases h).2 with
    | read _ hany => exact ⟨hany, rfl⟩
  have hcount := without_chain rfl hany
  have hsame : ((c.without (· == .read)).counted inbound).rateKill settings =
      (c.counted inbound).rateKill settings := rfl
  have hpending := limited_pending settings c inbound
  rw [onRead_ok, hsame, limited_without]
  cases hkill : (c.counted inbound).rateKill settings with
  | true =>
    left
    rw [if_pos rfl]
    have habort := abort_unmetered ((c.without (· == .read)).counted inbound) 0
    have hchain : _ ≤ (c.without (· == .read)).pending.countP WsOp.isChain + 0 := habort.chain
    exact ⟨rfl, habort.now, by omega⟩
  | false =>
    right
    rw [if_neg (by simp)]
    have hwithout : (((c.counted inbound).limited settings).without (· == .read)).pending =
        (c.without (· == .read)).pending := by
      unfold without
      rw [hpending]
    have hone : ∀ c', Unmetered (((c.counted inbound).limited settings).without (· == .read)) c' 1 →
        Unmetered ((c.counted inbound).limited settings) c' 0 := by
      intro c' hstep
      have hchain := hstep.chain
      rw [hwithout] at hchain
      exact ⟨hstep.start, hstep.messages, hstep.bytes, hstep.now, by rw [hpending]; omega⟩
    refine ⟨rfl, hone _ ?_⟩
    split
    · exact shutdown_unmetered _ 1
    · exact takeMessage_unmetered settings _ _

/-! ## The limiter -/

/-- The rate limiter of a connection is the limiter `l`, and at most one
operation of the chain is outstanding. -/
structure Metered (settings : Settings) (c : WsConnection) (l : Limiter) : Prop where
  start : l.start = c.rateLimitStart
  messages : (l.messages : Int) = c.rateLimitMessages
  bytes : l.bytes = c.rateLimitBytes
  within : l.bytes ≤ (rateLimits settings).bytes
  chain : c.pending.countP WsOp.isChain ≤ 1

theorem Metered.unmetered {l : Limiter} (hm : Metered settings c l) (h : Unmetered c c' 0) :
    Metered settings c' l where
  start := hm.start.trans h.start.symm
  messages := hm.messages.trans h.messages.symm
  bytes := hm.bytes.trans h.bytes.symm
  within := hm.within
  chain := Nat.le_trans h.chain hm.chain

section

variable (hmessages : 0 ≤ settings.rateLimitMessages) (hbytes : 0 ≤ settings.rateLimitBytes)

include hmessages hbytes

theorem overLimit_eq {l : Limiter} (hm : Metered settings c l) {inbound : Inbound}
    (hfit : settings.rateLimitBytes + inbound.data.length < 2 ^ 64) :
    (c.counted inbound).overLimit settings =
      (decide (l.messages + 1 > (rateLimits settings).messages) ||
        decide (l.bytes + inbound.data.length > (rateLimits settings).bytes)) := by
  have hwithin : l.bytes ≤ settings.rateLimitBytes.toNat := hm.within
  have hlimit : (settings.rateLimitBytes % 2 ^ 64).toNat = settings.rateLimitBytes.toNat := by
    rw [Int.emod_eq_of_lt hbytes (by omega)]
  have hmod : (c.rateLimitBytes + inbound.data.length) % 2 ^ 64 =
      l.bytes + inbound.data.length := by
    rw [← hm.bytes, Nat.mod_eq_of_lt (by omega)]
  have hcount : (c.rateLimitMessages + 1 > settings.rateLimitMessages) ↔
      l.messages + 1 > settings.rateLimitMessages.toNat := by
    rw [← hm.messages]
    omega
  show (decide (c.rateLimitMessages + 1 > settings.rateLimitMessages) ||
    decide ((c.rateLimitBytes + inbound.data.length) % 2 ^ 64 >
      (settings.rateLimitBytes % 2 ^ 64).toNat)) = _
  rw [hlimit, hmod, decide_eq_decide.mpr hcount]
  rfl

/-- `check_rate_limit` decides as the limiter does, and counts as it does. -/
theorem arrive_metered {l : Limiter} (hm : Metered settings c l) {inbound : Inbound}
    (hfit : settings.rateLimitBytes + inbound.data.length < 2 ^ 64) :
    ((c.counted inbound).rateKill settings = true ∧
      l.arrive (rateLimits settings) ⟨c.now, inbound.data.length⟩ = none) ∨
    ((c.counted inbound).rateKill settings = false ∧
      ∃ l', l.arrive (rateLimits settings) ⟨c.now, inbound.data.length⟩ = some l' ∧
        Metered settings ((c.counted inbound).limited settings) l') := by
  have hover := overLimit_eq hmessages hbytes hm hfit
  have hchain : ((c.counted inbound).limited settings).pending.countP WsOp.isChain ≤ 1 := by
    rw [limited_pending]
    exact hm.chain
  have hstart : c.now - c.rateLimitStart = c.now - l.start := by rw [hm.start]
  have hkill : (c.counted inbound).rateKill settings =
      ((c.counted inbound).overLimit settings &&
        !decide (c.now - c.rateLimitStart > seconds 1)) := rfl
  unfold Limiter.arrive
  dsimp only
  rw [hkill, hstart, ← hover]
  unfold limited at hchain ⊢
  cases ho : (c.counted inbound).overLimit settings with
  | true =>
    simp only [ho, if_true] at hchain ⊢
    by_cases hlate : c.now - l.start > seconds 1
    · refine Or.inr ⟨by simp [hlate], Limiter.init c.now, if_pos hlate, ?_⟩
      exact ⟨rfl, rfl, rfl, Nat.zero_le _, hchain⟩
    · exact Or.inl ⟨by simp [hlate], if_neg hlate⟩
  | false =>
    simp only [ho, Bool.false_eq_true, if_false] at hchain ⊢
    rw [ho, eq_comm, Bool.or_eq_false_iff, decide_eq_false_iff_not, decide_eq_false_iff_not]
      at hover
    refine Or.inr ⟨rfl, _, rfl, hm.start, ?_, ?_, Nat.not_lt.mp hover.2, hchain⟩
    · show ((l.messages + 1 : Nat) : Int) = c.rateLimitMessages + 1
      rw [← hm.messages]
      omega
    · have hwithin : l.bytes ≤ settings.rateLimitBytes.toNat := hm.within
      show l.bytes + inbound.data.length = (c.rateLimitBytes + inbound.data.length) % 2 ^ 64
      rw [← hm.bytes, Nat.mod_eq_of_lt (by omega)]

/-! ## Runs -/

omit hmessages hbytes in
theorem arrival_of_not_read (settings : Settings) (c : WsConnection) {e : WsEvent}
    (h : ∀ inbound, e ≠ .read (.ok inbound)) :
    Spared settings c e ∧ c.arrival e = [] ∧ c.letThrough settings e = [] := by
  cases e with
  | read result =>
    cases result with
    | error ec => exact ⟨trivial, rfl, rfl⟩
    | ok inbound => exact absurd rfl (h inbound)
  | _ => exact ⟨trivial, rfl, rfl⟩

omit hmessages hbytes in
/-- Without an operation of the chain nothing is read any more. -/
theorem run_silent {es : List WsEvent} (hchain : c.pending.countP WsOp.isChain = 0)
    (hrun : runEvents (step settings) c es = some c') :
    observe (step settings) arrival c es = [] ∧
      observe (step settings) (letThrough settings) c es = [] := by
  induction es generalizing c with
  | nil => exact ⟨rfl, rfl⟩
  | cons e es ih =>
    obtain ⟨c₁, hstep, hrest⟩ := Option.bind_eq_some_iff.mp hrun
    have hread : ∀ inbound, e ≠ .read (.ok inbound) := by
      rintro inbound rfl
      rcases step_read hstep with ⟨_, _, hle⟩ | ⟨_, _⟩
      · omega
      · cases (step_cases hstep).2 with
        | read _ hany =>
          have hpos : 0 < c.pending.countP WsOp.isChain :=
            countP_pos_of_any (fun _ h => by rw [eq_of_beq h]; rfl) hany
          omega
    have hle := (step_unmetered hstep hread).2.chain
    have hnext := ih (Nat.le_zero.mp (hchain ▸ hle)) hrest
    have hnone := arrival_of_not_read settings c hread
    rw [observe_cons hstep, observe_cons hstep, hnone.2.1, hnone.2.2, hnext.1, hnext.2]
    exact ⟨rfl, rfl⟩

/-- The messages let through are a run of the limiter. They are all that are
read, or there is one more, which the limiter refuses. -/
def Limited (settings : Settings) (l : Limiter) (c : WsConnection) (es : List WsEvent) : Prop :=
  ∃ l', runEvents (Limiter.arrive (rateLimits settings)) l
      (observe (step settings) (letThrough settings) c es) = some l' ∧
    ((observe (step settings) arrival c es = observe (step settings) (letThrough settings) c es ∧
        AllSteps (step settings) (Spared settings) c es) ∨
      ∃ a, observe (step settings) arrival c es =
          observe (step settings) (letThrough settings) c es ++ [a] ∧
        l'.arrive (rateLimits settings) a = none)

omit hmessages hbytes in
theorem Limited.cons {l l₁ : Limiter} {c₁ : WsConnection} {e : WsEvent} {es : List WsEvent}
    (hstep : step settings c e = some c₁) (hspared : Spared settings c e)
    (hsame : c.arrival e = c.letThrough settings e)
    (hfirst : runEvents (Limiter.arrive (rateLimits settings)) l (c.letThrough settings e) =
      some l₁) (h : Limited settings l₁ c₁ es) : Limited settings l c (e :: es) := by
  obtain ⟨l', hrun, hend⟩ := h
  refine ⟨l', ?_, ?_⟩
  · rw [observe_cons hstep, runEvents_append hfirst]
    exact hrun
  rw [observe_cons hstep, observe_cons hstep, hsame]
  rcases hend with ⟨hall, hsteps⟩ | ⟨a, hall, hrefused⟩
  · refine Or.inl ⟨by rw [hall], hspared, fun c₂ hstep' => ?_⟩
    cases hstep.symm.trans hstep'
    exact hsteps
  · exact Or.inr ⟨a, by rw [hall, List.append_assoc], hrefused⟩

theorem run_metered {l : Limiter} {es : List WsEvent} (hm : Metered settings c l)
    (hrun : runEvents (step settings) c es = some c')
    (hfit : ∀ a ∈ observe (step settings) arrival c es,
      settings.rateLimitBytes + a.size < 2 ^ 64) : Limited settings l c es := by
  induction es generalizing c l with
  | nil => exact ⟨l, rfl, Or.inl ⟨rfl, trivial⟩⟩
  | cons e es ih =>
    obtain ⟨c₁, hstep, hrest⟩ := Option.bind_eq_some_iff.mp hrun
    rw [observe_cons hstep] at hfit
    have hfit₁ := fun a ha => hfit a (List.mem_append_right _ ha)
    by_cases hread : ∃ inbound, e = .read (.ok inbound)
    · obtain ⟨inbound, rfl⟩ := hread
      have hsize := hfit ⟨c.now, inbound.data.length⟩ List.mem_cons_self
      have hthrough : c.letThrough settings (.read (.ok inbound)) =
          if (c.counted inbound).rateKill settings then []
          else [⟨c.now, inbound.data.length⟩] := by
        rw [← checkRateLimit_fst]
        rfl
      rcases arrive_metered hmessages hbytes hm hsize with
        ⟨hkill, hrefused⟩ | ⟨hpass, l₁, harrive, hm₁⟩
      · -- The connection is aborted, and nothing is read any more.
        rcases step_read hstep with ⟨_, _, hchain⟩ | ⟨hpass, _⟩
        · have hlast : c₁.pending.countP WsOp.isChain = 0 := by
            have hone := hm.chain
            omega
          obtain ⟨hnone, hnone'⟩ := run_silent hlast hrest
          refine ⟨l, ?_, Or.inr ⟨⟨c.now, inbound.data.length⟩, ?_, hrefused⟩⟩
          · rw [observe_cons hstep, hthrough, if_pos hkill, hnone']
            rfl
          · rw [observe_cons hstep, observe_cons hstep, hthrough, if_pos hkill, hnone, hnone']
            rfl
        · rw [hkill] at hpass
          cases hpass
      · rcases step_read hstep with ⟨hkill, _⟩ | ⟨_, hunmetered⟩
        · rw [hkill] at hpass
          cases hpass
        · rw [if_neg (by simp [hpass])] at hthrough
          refine Limited.cons hstep ((checkRateLimit_fst settings _).trans hpass) hthrough.symm ?_
            (ih (hm₁.unmetered hunmetered) hrest hfit₁)
          rw [hthrough, runEvents, harrive]
          rfl
    · have hother : ∀ inbound, e ≠ .read (.ok inbound) := fun i hi => hread ⟨i, hi⟩
      have hunmetered := (step_unmetered hstep hother).2
      have hm₁ : Metered settings c₁ l :=
        ⟨hm.start.trans hunmetered.start.symm, hm.messages.trans hunmetered.messages.symm,
          hm.bytes.trans hunmetered.bytes.symm, hm.within,
          Nat.le_trans hunmetered.chain hm.chain⟩
      have hquiet := arrival_of_not_read settings c hother
      refine Limited.cons hstep hquiet.1 (hquiet.2.1.trans hquiet.2.2.symm) ?_
        (ih hm₁ hrest hfit₁)
      rw [hquiet.2.2]
      rfl

end

theorem run_inOrder {es : List WsEvent} (hrun : runEvents (step settings) c es = some c') :
    InOrder (observe (step settings) arrival c es) ∧
      ∀ a ∈ observe (step settings) arrival c es, c.now ≤ a.time := by
  induction es generalizing c with
  | nil => exact ⟨List.Pairwise.nil, nofun⟩
  | cons e es ih =>
    obtain ⟨c₁, hstep, hrest⟩ := Option.bind_eq_some_iff.mp hrun
    obtain ⟨horder, hlater⟩ := ih hrest
    rw [observe_cons hstep]
    by_cases hread : ∃ inbound, e = .read (.ok inbound)
    · obtain ⟨inbound, rfl⟩ := hread
      have hnow : c₁.now = c.now := by
        rcases step_read hstep with ⟨_, hnow, _⟩ | ⟨_, hunmetered⟩
        · exact hnow
        · rw [hunmetered.now]
          unfold limited
          split <;> rfl
      rw [hnow] at hlater
      refine ⟨List.pairwise_cons.mpr ⟨hlater, horder⟩, fun a ha => ?_⟩
      rcases List.mem_cons.mp ha with rfl | hrest
      · exact Int.le_refl _
      · exact hlater a hrest
    · have hother : ∀ inbound, e ≠ .read (.ok inbound) := fun i hi => hread ⟨i, hi⟩
      rw [(arrival_of_not_read settings c hother).2.1, List.nil_append]
      exact ⟨horder, fun a ha => Int.le_trans (step_unmetered hstep hother).1 (hlater a ha)⟩

/-- After a message let through the counters are zero or within the limits. -/
theorem step_countersWithin {e : WsEvent} (hmessages : 0 ≤ settings.rateLimitMessages)
    (hbytes : 0 ≤ settings.rateLimitBytes) (c : WsConnection) : CountersWithin settings c e := by
  intro hthrough c' hstep
  by_cases hread : ∃ inbound, e = .read (.ok inbound)
  · obtain ⟨inbound, rfl⟩ := hread
    rcases step_read hstep with ⟨hkill, _⟩ | ⟨_, hunmetered⟩
    · exact absurd (if_pos ((checkRateLimit_fst settings _).trans hkill)) hthrough
    · rw [hunmetered.messages, hunmetered.bytes]
      unfold limited
      split
      · exact ⟨hmessages, hbytes⟩
      · next hover =>
        unfold overLimit at hover
        rw [Bool.or_eq_true, decide_eq_true_eq, decide_eq_true_eq] at hover
        omega
  · have hnone := (arrival_of_not_read settings c fun i hi => hread ⟨i, hi⟩).2.2
    exact absurd hnone hthrough

theorem run_metered_init (settings : Settings) (now : Int) :
    Metered settings ((init now).run settings) (Limiter.init now) :=
  ⟨rfl, rfl, rfl, Nat.zero_le _, Nat.le_refl 1⟩

end RateLimitLemmas

end WsConnection

open WsConnection RateLimitLemmas

/-- The rate limiter over a run of a connection, with limits that are not
negative and such that no message overflows the counter of bytes: a client that
keeps to the limits in every window is never aborted by it; whatever the client
does, what is let through in a window is at most twice the limits and one
message; and after every message let through the counters are within the
limits. -/
theorem rate_limit_fair (settings : Settings) (hmessages : 0 ≤ settings.rateLimitMessages)
    (hbytes : 0 ≤ settings.rateLimitBytes) (now : Int) (es : List WsEvent) (c : WsConnection)
    (hrun : runEvents (step settings) ((init now).run settings) es = some c)
    (hfit : ∀ a ∈ observe (step settings) arrival ((init now).run settings) es,
      settings.rateLimitBytes + a.size < 2 ^ 64) :
    ((∀ t, ((rateLimits settings).inWindow t
          (observe (step settings) arrival ((init now).run settings) es)).length ≤
          (rateLimits settings).messages ∧
        total Arrival.size ((rateLimits settings).inWindow t
          (observe (step settings) arrival ((init now).run settings) es)) ≤
          (rateLimits settings).bytes) →
      AllSteps (step settings) (Spared settings) ((init now).run settings) es) ∧
    (∀ t, ((rateLimits settings).inWindow t
          (observe (step settings) (letThrough settings) ((init now).run settings) es)).length ≤
          2 * (rateLimits settings).messages + 1 ∧
        Within Arrival.size (2 * (rateLimits settings).bytes) ((rateLimits settings).inWindow t
          (observe (step settings) (letThrough settings) ((init now).run settings) es))) ∧
    AllSteps (step settings) (CountersWithin settings) ((init now).run settings) es := by
  obtain ⟨horder, hafter⟩ := run_inOrder hrun
  have hstart : ∀ a ∈ observe (step settings) arrival ((init now).run settings) es, now ≤ a.time :=
    hafter
  obtain ⟨l, hlimiter, hend⟩ :=
    run_metered hmessages hbytes (run_metered_init settings now) hrun hfit
  refine ⟨fun hconforms => ?_, fun t => ?_, ?_⟩
  · rcases hend with ⟨_, hspared⟩ | ⟨a, hall, hrefused⟩
    · exact hspared
    · -- The limiter would have refused a client that keeps to the limits.
      obtain ⟨l', hpasses⟩ := Limiter.conforming_run horder hstart hconforms
      rw [hall, runEvents_append hlimiter, runEvents, hrefused] at hpasses
      cases hpasses
  · have hsublist : (observe (step settings) (letThrough settings) ((init now).run settings)
        es).Sublist (observe (step settings) arrival ((init now).run settings) es) := by
      rcases hend with ⟨hall, _⟩ | ⟨a, hall, _⟩
      · rw [hall]
      · rw [hall]
        exact List.sublist_append_left _ _
    have horder' := List.Pairwise.sublist hsublist horder
    have hstart' := fun a ha => hstart a (hsublist.subset ha)
    have hcount := Limiter.window_within (w := fun _ => 1) (k := (rateLimits settings).messages)
      (fun as hlen _ => (LimiterLemmas.total_one as).trans_le hlen) horder' hstart' hlimiter t
    have hsize := Limiter.window_within (fun _ _ h => h) horder' hstart' hlimiter t
    refine ⟨?_, hsize⟩
    unfold Within at hcount
    rw [LimiterLemmas.total_one] at hcount
    rcases hcount with hle | ⟨_, _, hle⟩
    · omega
    · exact hle
  · exact allSteps_of_invariant (I := fun _ => True) (fun _ _ _ _ _ => trivial)
      (fun s _ _ => step_countersWithin hmessages hbytes s) trivial es

/-- A limit of one message and ten bytes. -/
def tightSettings : Settings :=
  { defaultSettings with rateLimitMessages := 1, rateLimitBytes := 10 }

/-- Under the limit a client that sends a byte now and one two seconds later. -/
theorem rate_limit_fair_slow :
    AllSteps (step tightSettings) (Spared tightSettings) ((init 0).run tightSettings)
      [.sslHandshake (.ok ()), .requestRead (.ok ⟨true, []⟩) 1, .wsHandshake (.ok ()),
        .read (.ok ⟨[7], true⟩), .tick 2000000000, .read (.ok ⟨[8], true⟩)] := by
  have harrivals : observe (step tightSettings) arrival ((init 0).run tightSettings)
      [.sslHandshake (.ok ()), .requestRead (.ok ⟨true, []⟩) 1, .wsHandshake (.ok ()),
        .read (.ok ⟨[7], true⟩), .tick 2000000000, .read (.ok ⟨[8], true⟩)] =
      [⟨0, 1⟩, ⟨2000000000, 1⟩] := rfl
  refine (rate_limit_fair tightSettings (by decide) (by decide) 0 _ _ rfl ?_).1 ?_
  · rw [harrivals]
    decide
  · intro t
    rw [harrivals]
    -- No window of a second holds both.
    by_cases hfirst : t ≤ 0
    · have hsecond : ¬(2000000000 : Int) ≤ t + seconds 1 := by
        unfold seconds
        omega
      by_cases hreach : 0 ≤ t + seconds 1 <;>
        simp [Limits.inWindow, rateLimits, tightSettings, total, hfirst, hsecond, hreach]
    · by_cases hsecond : t ≤ 2000000000 <;> by_cases hreach : (2000000000 : Int) ≤ t + seconds 1 <;>
        simp [Limits.inWindow, rateLimits, tightSettings, total, hfirst, hsecond, hreach]

end Ian.Front
