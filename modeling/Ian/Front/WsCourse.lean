import Ian.Front.WsLifetime

/-!
# The course of a websocket connection

A connection takes one way: SSL handshake, HTTP request, and then either an
answer and the end, or the websocket handshake and reads, one after the other
(`Course`). Two things follow that the handlers do not check.

* `one_answer`: a request is answered at most once, and never both answered and
  upgraded.
* `messages_whole`: `on_read` takes `readlen` bytes off a buffer that holds this
  message only, as its `TODO` asks to check. What is delivered is the messages
  that were read, whole, in order and once each, but for those that the rate
  limiter or the check for text has stopped.
-/

namespace Ian.Front

open Ian.Lib Ian.Common

namespace WsConnection

/-- The operations of the chain that have been started. -/
def chain (c : WsConnection) : List WsOp := c.started.filter WsOp.isChain

/-- Those that are outstanding. -/
def waiting (c : WsConnection) : List WsOp := c.pending.filter WsOp.isChain

/-- The chain when the websocket is open and `n` reads have been started. -/
def openChain (n : Nat) : List WsOp :=
  [.sslHandshake, .requestRead, .wsHandshake] ++ List.replicate n .read

/-- The answer that the handler of a request writes. -/
def answers (settings : Settings) (_ : WsConnection) : WsEvent → List Response
  | .requestRead (.ok request) active =>
    if active > settings.connectionLimitSoft then [⟨503, "Overloaded"⟩]
    else if request.isUpgrade then []
    else [⟨501, "Not implemented"⟩]
  | _ => []

/-- The message that the handler of a read processes: the one that was read,
unless the rate limiter or the check for text stops it. -/
def taken (settings : Settings) (c : WsConnection) : WsEvent → List (List UInt8)
  | .read (.ok inbound) =>
    if (c.counted inbound).rateKill settings || !inbound.gotBinary then [] else [inbound.data]
  | _ => []

/-- How far a connection is. The buffer is empty as long as an operation of the
chain is outstanding. -/
inductive Course (c : WsConnection) : Prop where
  | connecting (chain : c.chain = [.sslHandshake]) (waiting : c.waiting = [.sslHandshake])
    (buffer : c.readBuffer = []) (quiet : c.responses = [] ∧ c.delivered = [])
  | requesting (chain : c.chain = [.sslHandshake, .requestRead])
    (waiting : c.waiting = [.requestRead]) (buffer : c.readBuffer = [])
    (quiet : c.responses = [] ∧ c.delivered = [])
  | upgrading (chain : c.chain = openChain 0) (waiting : c.waiting = [.wsHandshake])
    (buffer : c.readBuffer = []) (quiet : c.responses = [] ∧ c.delivered = [])
  | talking (n : Nat) (chain : c.chain = openChain (n + 1)) (waiting : c.waiting = [.read])
    (buffer : c.readBuffer = []) (quiet : c.responses = [])
  | answered (chain : c.chain = [.sslHandshake, .requestRead]) (waiting : c.waiting = [])
    (one : c.responses.length = 1) (quiet : c.delivered = [])
  | ended (n : Nat) (chain : c.chain <+: openChain n) (waiting : c.waiting = [])
    (quiet : c.responses = [])

/-- What a handler leaves alone that goes no step further. -/
structure Idles (c c' : WsConnection) : Prop where
  chain : c'.chain = c.chain
  waiting : c'.waiting = c.waiting
  buffer : c'.readBuffer = c.readBuffer
  responses : c'.responses = c.responses
  delivered : c'.delivered = c.delivered

variable {c c' c'' : WsConnection} {settings : Settings}

theorem Idles.refl (c : WsConnection) : Idles c c := ⟨rfl, rfl, rfl, rfl, rfl⟩

theorem Idles.trans (h : Idles c c') (h' : Idles c' c'') : Idles c c'' :=
  ⟨h'.chain.trans h.chain, h'.waiting.trans h.waiting, h'.buffer.trans h.buffer,
    h'.responses.trans h.responses, h'.delivered.trans h.delivered⟩

namespace CourseLemmas

open WsWritingLemmas WsTeardownLemmas WsLifetimeLemmas

theorem start_idles (c : WsConnection) (op : WsOp) (hop : op.isChain = false) :
    Idles c (c.start op) := by
  refine ⟨?_, ?_, rfl, rfl, rfl⟩
  · simp [start, chain, hop]
  · simp [start, waiting, hop]

theorem abort_idles (c : WsConnection) : Idles c c.abort := by
  unfold abort
  split <;> exact ⟨rfl, rfl, rfl, rfl, rfl⟩

theorem shutdown_idles (c : WsConnection) : Idles c c.shutdown := by
  unfold shutdown
  dsimp only
  split
  · exact Idles.refl c
  split
  · exact ⟨rfl, rfl, rfl, rfl, rfl⟩
  · obtain ⟨hchain, hwaiting, _, _, _⟩ := start_idles c.cancelAll .sslShutdown rfl
    exact ⟨hchain, hwaiting, rfl, rfl, rfl⟩

theorem handleError_idles (c : WsConnection) (ec : ErrorKind) : Idles c (c.handleError ec) := by
  unfold handleError
  split
  · exact Idles.refl c
  cases ec with
  | reset => exact abort_idles c
  | canceled => exact Idles.refl c
  | other => exact shutdown_idles c

theorem doWriteMessage_idles (c : WsConnection) (m : Message) : Idles c (c.doWriteMessage m) := by
  unfold doWriteMessage
  dsimp only
  split
  · exact ⟨rfl, rfl, rfl, rfl, rfl⟩
  · next payload _ =>
    obtain ⟨hchain, hwaiting, _, _, _⟩ :=
      start_idles (c.assignOutbound m) (.write payload) rfl
    exact ⟨hchain, hwaiting, rfl, rfl, rfl⟩

theorem sendMessage_idles (c : WsConnection) (m : Message) : Idles c (c.sendMessage m) := by
  unfold sendMessage sendMessageBody
  dsimp only
  split
  · exact Idles.refl c
  split
  · exact Idles.refl c
  split
  · obtain ⟨hchain, hwaiting, hbuffer, hresponses, hdelivered⟩ :=
      doWriteMessage_idles { c with accepted := c.accepted ++ [m], isWriting := true } m
    exact ⟨hchain, hwaiting, hbuffer, hresponses, hdelivered⟩
  split <;> exact ⟨rfl, rfl, rfl, rfl, rfl⟩

theorem writeQueued_idles (c : WsConnection) : Idles c c.writeQueued := by
  unfold writeQueued
  split
  · exact ⟨rfl, rfl, rfl, rfl, rfl⟩
  · exact ⟨rfl, rfl, rfl, rfl, rfl⟩
  · next m q _ =>
    obtain ⟨hchain, hwaiting, hbuffer, hresponses, hdelivered⟩ :=
      doWriteMessage_idles { c with messageQueue := q } m
    exact ⟨hchain, hwaiting, hbuffer, hresponses, hdelivered⟩

theorem onWriteMessage_idles (c : WsConnection) (result : Except ErrorKind Unit) :
    Idles c (c.onWriteMessage result) := by
  cases result with
  | error ec =>
    obtain ⟨hchain, hwaiting, hbuffer, hresponses, hdelivered⟩ :=
      handleError_idles { c.assignOutbound .empty with writeFailed := true } ec
    exact ⟨hchain, hwaiting, hbuffer, hresponses, hdelivered⟩
  | ok u =>
    obtain ⟨hchain, hwaiting, hbuffer, hresponses, hdelivered⟩ :=
      writeQueued_idles { c.assignOutbound .empty with
        completed := c.completed ++ [c.messageOutbound] }
    exact ⟨hchain, hwaiting, hbuffer, hresponses, hdelivered⟩

theorem onTimeout_idles (c : WsConnection) (state : WaitState) : Idles c (c.onTimeout state) := by
  unfold onTimeout
  split
  · exact Idles.refl c
  · exact abort_idles c

theorem onShutdown_idles (c : WsConnection) (result : Except ErrorKind Unit) :
    Idles c (c.onShutdown result) := by
  unfold onShutdown
  split <;> exact ⟨rfl, rfl, rfl, rfl, rfl⟩

theorem setTimer_idles (c : WsConnection) (t : Timer Unit) (id : TimerId) :
    Idles c (c.setTimer t id) := by
  cases id <;> exact ⟨rfl, rfl, rfl, rfl, rfl⟩

theorem without_idles {p : WsOp → Bool} (hp : ∀ op, p op = true → op.isChain = false)
    (c : WsConnection) : Idles c (c.without p) :=
  ⟨rfl, filter_eraseP_of_disjoint hp c.pending, rfl, rfl, rfl⟩

/-! ## The course goes on, or is over -/

theorem course_congr (h : Course c) (hidles : Idles c c') : Course c' := by
  obtain ⟨hchain, hwaiting, hbuffer, hresponses, hdelivered⟩ := hidles
  cases h with
  | connecting chain waiting buffer quiet =>
    exact .connecting (hchain.trans chain) (hwaiting.trans waiting) (hbuffer.trans buffer)
      ⟨hresponses.trans quiet.1, hdelivered.trans quiet.2⟩
  | requesting chain waiting buffer quiet =>
    exact .requesting (hchain.trans chain) (hwaiting.trans waiting) (hbuffer.trans buffer)
      ⟨hresponses.trans quiet.1, hdelivered.trans quiet.2⟩
  | upgrading chain waiting buffer quiet =>
    exact .upgrading (hchain.trans chain) (hwaiting.trans waiting) (hbuffer.trans buffer)
      ⟨hresponses.trans quiet.1, hdelivered.trans quiet.2⟩
  | talking n chain waiting buffer quiet =>
    exact .talking n (hchain.trans chain) (hwaiting.trans waiting) (hbuffer.trans buffer)
      (hresponses.trans quiet)
  | answered chain waiting one quiet =>
    refine .answered (hchain.trans chain) (hwaiting.trans waiting) ?_ (hdelivered.trans quiet)
    rw [hresponses, one]
  | ended n chain waiting quiet =>
    refine .ended n ?_ (hwaiting.trans waiting) (hresponses.trans quiet)
    rw [hchain]
    exact chain

/-- An operation of the chain that completes is the one that is outstanding. -/
theorem waiting_of_any {op : WsOp} (hop : op.isChain = true)
    (hany : c.pending.any (· == op) = true) : op ∈ c.waiting := by
  obtain ⟨op', hmem, heq⟩ := List.any_eq_true.mp hany
  rw [eq_of_beq heq] at hmem
  exact List.mem_filter.mpr ⟨hmem, hop⟩

theorem without_waiting {op : WsOp} (hop : op.isChain = true) (h : c.waiting = [op]) :
    (c.without (· == op)).waiting = [] := by
  have hboth : (fun op' => (op' == op) && op'.isChain) = (· == op) := by
    funext op'
    cases heq : op' == op with
    | false => rfl
    | true => rw [eq_of_beq heq]; exact hop
  have herase : (c.without (· == op)).waiting = c.waiting.eraseP (· == op) := by
    unfold waiting
    rw [List.eraseP_filter, hboth]
    rfl
  rw [herase, h]
  exact List.eraseP_cons_of_pos (beq_self_eq_true op)

/-- A handler that starts nothing: the course is over. -/
theorem course_over {d : WsConnection} {n : Nat} (hchain : d.chain <+: openChain n)
    (hwaiting : d.waiting = []) (hresponses : d.responses = []) (hidles : Idles d c') :
    Course c' :=
  course_congr (.ended n hchain hwaiting hresponses) hidles

/-- The handler of a request that answers it. -/
theorem course_respond {d : WsConnection} (hchain : d.chain = [.sslHandshake, .requestRead])
    (hwaiting : d.waiting = []) (quiet : d.responses = [] ∧ d.delivered = [])
    (response : Response) : Course (d.respond response) := by
  have hanswered : Course { d with responses := d.responses ++ [response] } := by
    refine .answered hchain hwaiting ?_ quiet.2
    show (d.responses ++ [response]).length = 1
    rw [quiet.1]
    rfl
  exact course_congr hanswered (shutdown_idles _)

theorem start_chain (c : WsConnection) (op : WsOp) (hop : op.isChain = true) :
    (c.start op).chain = c.chain ++ [op] := by
  simp [start, chain, hop]

theorem start_waiting (c : WsConnection) (op : WsOp) (hop : op.isChain = true) :
    (c.start op).waiting = c.waiting ++ [op] := by
  simp [start, waiting, hop]

theorem openChain_succ (n : Nat) : openChain n ++ [.read] = openChain (n + 1) := by
  unfold openChain
  rw [List.append_assoc, ← List.replicate_succ']

theorem respond_responses (c : WsConnection) (response : Response) :
    (c.respond response).responses = c.responses ++ [response] :=
  (shutdown_idles { c with responses := c.responses ++ [response] }).responses

/-! ## Where the course stands when an operation completes -/

theorem course_sslHandshake (h : Course c) (hmem : .sslHandshake ∈ c.waiting) :
    c.chain = [.sslHandshake] ∧ c.waiting = [.sslHandshake] ∧ c.readBuffer = [] ∧
      c.responses = [] ∧ c.delivered = [] := by
  cases h with
  | connecting chain waiting buffer quiet => exact ⟨chain, waiting, buffer, quiet⟩
  | _ => simp_all

theorem course_requestRead (h : Course c) (hmem : .requestRead ∈ c.waiting) :
    c.chain = [.sslHandshake, .requestRead] ∧ c.waiting = [.requestRead] ∧ c.readBuffer = [] ∧
      c.responses = [] ∧ c.delivered = [] := by
  cases h with
  | requesting chain waiting buffer quiet => exact ⟨chain, waiting, buffer, quiet⟩
  | _ => simp_all

theorem course_wsHandshake (h : Course c) (hmem : .wsHandshake ∈ c.waiting) :
    c.chain = openChain 0 ∧ c.waiting = [.wsHandshake] ∧ c.readBuffer = [] ∧
      c.responses = [] := by
  cases h with
  | upgrading chain waiting buffer quiet => exact ⟨chain, waiting, buffer, quiet.1⟩
  | _ => simp_all

theorem course_read (h : Course c) (hmem : .read ∈ c.waiting) :
    ∃ n, c.chain = openChain (n + 1) ∧ c.waiting = [.read] ∧ c.readBuffer = [] ∧
      c.responses = [] := by
  cases h with
  | talking n chain waiting buffer quiet => exact ⟨n, chain, waiting, buffer, quiet⟩
  | _ => simp_all

/-! ## Handlers -/

theorem sslHandshake_course (h : Course c) (hany : c.pending.any (· == .sslHandshake) = true)
    (result : Except ErrorKind Unit) :
    Course ((c.without (· == .sslHandshake)).onSslHandshake result) := by
  obtain ⟨hchain, hwaiting, hbuffer, hquiet⟩ := course_sslHandshake h (waiting_of_any rfl hany)
  have hnone := without_waiting rfl hwaiting
  cases result with
  | error ec =>
    refine course_over (n := 0) ?_ hnone hquiet.1 (abort_idles _)
    exact hchain ▸ ⟨_, rfl⟩
  | ok u =>
    refine .requesting ?_ ?_ hbuffer hquiet
    · exact (start_chain _ _ rfl).trans (congrArg (· ++ [WsOp.requestRead]) hchain)
    · exact (start_waiting _ _ rfl).trans (congrArg (· ++ [WsOp.requestRead]) hnone)

theorem requestRead_course (h : Course c) (hany : c.pending.any (· == .requestRead) = true)
    (result : Except ErrorKind Request) (active : Int) :
    Course ((c.without (· == .requestRead)).onReadRequest settings result active) := by
  obtain ⟨hchain, hwaiting, hbuffer, hquiet⟩ := course_requestRead h (waiting_of_any rfl hany)
  have hnone := without_waiting rfl hwaiting
  cases result with
  | error ec =>
    refine course_over (n := 0) ?_ hnone hquiet.1 (handleError_idles _ ec)
    exact hchain ▸ ⟨_, rfl⟩
  | ok request =>
    have hrespond := course_respond
      (d := { c.without (· == .requestRead) with readBuffer := [] }) hchain hnone hquiet
    rw [onReadRequest_ok]
    split
    · exact hrespond _
    split
    · refine .upgrading ?_ ?_ rfl hquiet
      · exact (start_chain _ _ rfl).trans (congrArg (· ++ [WsOp.wsHandshake]) hchain)
      · exact (start_waiting _ _ rfl).trans (congrArg (· ++ [WsOp.wsHandshake]) hnone)
    · exact hrespond _

theorem wsHandshake_course (h : Course c) (hany : c.pending.any (· == .wsHandshake) = true)
    (result : Except ErrorKind Unit) :
    Course ((c.without (· == .wsHandshake)).onWsHandshake settings result) := by
  obtain ⟨hchain, hwaiting, hbuffer, hquiet⟩ := course_wsHandshake h (waiting_of_any rfl hany)
  have hnone := without_waiting rfl hwaiting
  have hprefix : (c.without (· == .wsHandshake)).chain <+: openChain 0 := hchain ▸ List.prefix_rfl
  unfold onWsHandshake
  split
  · exact .ended 0 hprefix hnone hquiet
  cases result with
  | error ec => exact course_over hprefix hnone hquiet (shutdown_idles _)
  | ok u =>
    refine .talking 0 ?_ ?_ hbuffer hquiet
    · exact (start_chain _ _ rfl).trans (congrArg (· ++ [WsOp.read]) hchain)
    · exact (start_waiting _ _ rfl).trans (congrArg (· ++ [WsOp.read]) hnone)

/-- `check_rate_limit` leaves alone what the course is about. -/
theorem limited_same (settings : Settings) (c : WsConnection) :
    (c.limited settings).chain = c.chain ∧ (c.limited settings).waiting = c.waiting ∧
      (c.limited settings).readBuffer = c.readBuffer ∧
      (c.limited settings).responses = c.responses := by
  unfold limited
  split <;> exact ⟨rfl, rfl, rfl, rfl⟩

theorem takeMessage_same (settings : Settings) (c : WsConnection) (readlen : Nat) :
    (c.takeMessage settings readlen).chain = c.chain ++ [.read] ∧
      (c.takeMessage settings readlen).waiting = c.waiting ++ [.read] ∧
      (c.takeMessage settings readlen).readBuffer = c.readBuffer.drop readlen ∧
      (c.takeMessage settings readlen).responses = c.responses := by
  have hchain := start_chain { c with readBuffer := c.readBuffer.drop readlen } .read rfl
  have hwaiting :=
    start_waiting { c with readBuffer := c.readBuffer.drop readlen } .read rfl
  unfold takeMessage
  dsimp only
  split <;> exact ⟨hchain, hwaiting, rfl, rfl⟩

theorem read_course (h : Course c) (hany : c.pending.any (· == .read) = true)
    (result : Except ErrorKind Inbound) :
    Course ((c.without (· == .read)).onRead settings result) := by
  obtain ⟨n, hchain, hwaiting, hbuffer, hquiet⟩ := course_read h (waiting_of_any rfl hany)
  have hnone := without_waiting rfl hwaiting
  have hprefix : (c.without (· == .read)).chain <+: openChain (n + 1) := hchain ▸ List.prefix_rfl
  cases result with
  | error ec => exact course_over hprefix hnone hquiet (handleError_idles _ ec)
  | ok inbound =>
    obtain ⟨hlchain, hlwaiting, hlbuffer, hlresponses⟩ :=
      limited_same settings ((c.without (· == .read)).counted inbound)
    rw [onRead_ok]
    split
    · exact course_over (d := (c.without (· == .read)).counted inbound) hprefix hnone hquiet
        (abort_idles _)
    split
    · exact course_over (hlchain ▸ hprefix) (hlwaiting.trans hnone) (hlresponses.trans hquiet)
        (shutdown_idles _)
    · obtain ⟨htchain, htwaiting, htbuffer, htresponses⟩ := takeMessage_same settings
        (((c.without (· == .read)).counted inbound).limited settings) inbound.data.length
      refine .talking (n + 1) ?_ ?_ ?_ (htresponses.trans (hlresponses.trans hquiet))
      · rw [htchain, hlchain, ← openChain_succ (n + 1)]
        exact congrArg (· ++ [WsOp.read]) hchain
      · rw [htwaiting, hlwaiting]
        exact congrArg (· ++ [WsOp.read]) hnone
      · -- The message has been appended to an empty buffer, and takes all of it.
        rw [htbuffer, hlbuffer]
        show (c.readBuffer ++ inbound.data).drop inbound.data.length = []
        rw [hbuffer, List.nil_append, List.drop_length]

end CourseLemmas

open CourseLemmas WsWritingLemmas WsLifetimeLemmas

theorem step_course {e : WsEvent} (h : Course c) (hstep : step settings c e = some c') :
    Course c' := by
  cases (step_cases hstep).2 with
  | send m => exact course_congr h (sendMessage_idles c m)
  | sslHandshake result hany => exact sslHandshake_course h hany result
  | requestRead result active hany => exact requestRead_course h hany result active
  | wsHandshake result hany => exact wsHandshake_course h hany result
  | read result hany => exact read_course h hany result
  | wrote result =>
    refine course_congr h
      ((without_idles (fun op hop => ?_) c).trans (onWriteMessage_idles _ result))
    cases op <;> first | rfl | cases hop
  | shutdownDone result =>
    refine course_congr h ((without_idles (fun op hop => ?_) c).trans (onShutdown_idles _ result))
    rw [eq_of_beq hop]
    rfl
  | tick duration => exact course_congr h ⟨rfl, rfl, rfl, rfl, rfl⟩
  | expire id t => exact course_congr h (setTimer_idles c t id)
  | timeout id i w t =>
    exact course_congr h ((setTimer_idles c t id).trans (onTimeout_idles _ w.state))

theorem run_course (settings : Settings) (now : Int) : Course ((init now).run settings) :=
  .connecting rfl rfl rfl ⟨rfl, rfl⟩

/-! ## Answers and messages -/

theorem step_answers {e : WsEvent} (h : step settings c e = some c') :
    c'.responses = c.responses ++ answers settings c e := by
  have hnone : c'.responses = c.responses → c'.responses = c.responses ++ [] :=
    fun hsame => hsame.trans (List.append_nil _).symm
  cases (step_cases h).2 with
  | send m => exact hnone (sendMessage_idles c m).responses
  | sslHandshake result =>
    cases result with
    | error ec => exact hnone (abort_idles (c.without _)).responses
    | ok u => exact hnone rfl
  | requestRead result active =>
    cases result with
    | error ec => exact hnone (handleError_idles (c.without _) ec).responses
    | ok request =>
      rw [onReadRequest_ok]
      unfold answers
      dsimp only
      split
      · exact respond_responses _ _
      split
      · exact (List.append_nil _).symm
      · exact respond_responses _ _
  | wsHandshake result =>
    refine hnone ?_
    unfold onWsHandshake
    split
    · rfl
    cases result with
    | error ec => exact (shutdown_idles (c.without _)).responses
    | ok u => rfl
  | read result =>
    refine hnone ?_
    cases result with
    | error ec => exact (handleError_idles (c.without _) ec).responses
    | ok inbound =>
      obtain ⟨_, _, _, hlimited⟩ :=
        limited_same settings ((c.without (· == .read)).counted inbound)
      rw [onRead_ok]
      split
      · exact (abort_idles ((c.without (· == .read)).counted inbound)).responses
      split
      · exact (shutdown_idles _).responses.trans hlimited
      · exact (takeMessage_same settings _ _).2.2.2.trans hlimited
  | wrote result => exact hnone (onWriteMessage_idles (c.without _) result).responses
  | shutdownDone result => exact hnone (onShutdown_idles (c.without _) result).responses
  | tick duration => exact hnone rfl
  | expire id t => exact hnone (setTimer_idles c t id).responses
  | timeout id i w t =>
    exact hnone ((setTimer_idles c t id).trans (onTimeout_idles _ w.state)).responses

/-- With an empty buffer `on_read` passes on the message that was read. -/
theorem deliveries_taken {e : WsEvent} (h : Course c) (hstep : step settings c e = some c') :
    c.deliveries settings e = (c.taken settings e).map .fromVector := by
  cases (step_cases hstep).2 with
  | read result hany =>
    cases result with
    | error ec => rfl
    | ok inbound =>
      obtain ⟨_, _, _, hbuffer, _⟩ := course_read h (waiting_of_any rfl hany)
      unfold deliveries taken
      dsimp only
      rw [hbuffer, List.nil_append, List.take_length]
      split <;> rfl
  | _ => rfl

namespace CourseLemmas

/-- What holds throughout a run, next to `Course`. -/
def Kept (c : WsConnection) : Prop := Course c ∧ c.teardown.Once

theorem step_kept {e : WsEvent} (h : Kept c) (hstep : step settings c e = some c') : Kept c' :=
  ⟨step_course h.1 hstep, step_once h.2 hstep⟩

theorem run_kept (settings : Settings) (now : Int) : Kept ((init now).run settings) :=
  ⟨run_course settings now, run_once settings now⟩

theorem run_answers {es : List WsEvent} (h : runEvents (step settings) c es = some c') :
    c'.responses = c.responses ++ observe (step settings) (answers settings) c es := by
  induction es generalizing c with
  | nil =>
    cases h
    exact (List.append_nil _).symm
  | cons e es ih =>
    obtain ⟨t, ht, hrest⟩ := Option.bind_eq_some_iff.mp h
    rw [observe_cons ht, ih hrest, step_answers ht, List.append_assoc]

theorem run_taken {es : List WsEvent} (hkept : Kept c)
    (h : runEvents (step settings) c es = some c') :
    c'.delivered = c.delivered ++
      (observe (step settings) (taken settings) c es).map .fromVector := by
  induction es generalizing c with
  | nil =>
    cases h
    exact (List.append_nil _).symm
  | cons e es ih =>
    obtain ⟨t, ht, hrest⟩ := Option.bind_eq_some_iff.mp h
    rw [observe_cons ht, ih (step_kept hkept ht) hrest, (step_delivered hkept.2 ht).1,
      deliveries_taken hkept.1 ht, List.map_append, List.append_assoc]

/-- An answer has been written. -/
theorem course_one_answer (h : Course c) : c.responses.length ≤ 1 ∧
    (c.responses ≠ [] → c.chain = [.sslHandshake, .requestRead] ∧ c.delivered = []) := by
  have hnone : c.responses = [] → c.responses.length ≤ 1 ∧
      (c.responses ≠ [] → c.chain = [.sslHandshake, .requestRead] ∧ c.delivered = []) := by
    intro hquiet
    rw [hquiet]
    exact ⟨Nat.zero_le 1, fun hsome => absurd rfl hsome⟩
  cases h with
  | connecting chain waiting buffer quiet => exact hnone quiet.1
  | requesting chain waiting buffer quiet => exact hnone quiet.1
  | upgrading chain waiting buffer quiet => exact hnone quiet.1
  | talking n chain waiting buffer quiet => exact hnone quiet
  | ended n chain waiting quiet => exact hnone quiet
  | answered chain waiting one quiet => exact ⟨Nat.le_of_eq one, fun _ => ⟨chain, quiet⟩⟩

theorem course_chain (h : Course c) : ∃ n, c.chain <+: openChain n := by
  cases h with
  | connecting chain => exact ⟨0, chain ▸ ⟨_, rfl⟩⟩
  | requesting chain => exact ⟨0, chain ▸ ⟨_, rfl⟩⟩
  | upgrading chain => exact ⟨0, chain ▸ List.prefix_rfl⟩
  | talking n chain => exact ⟨n + 1, chain ▸ List.prefix_rfl⟩
  | answered chain => exact ⟨0, chain ▸ ⟨_, rfl⟩⟩
  | ended n chain => exact ⟨n, chain⟩

end CourseLemmas

end WsConnection

open WsConnection CourseLemmas in
/-- Whatever happens, the operations a connection starts are the SSL handshake,
the read of a request, the websocket handshake and reads, in this order. Its
answers are those of the handler that gets a request, at most one of them, and
a connection that has answered starts no websocket and processes no message. -/
theorem one_answer (settings : Settings) (now : Int) (es : List WsEvent) (c : WsConnection)
    (h : runEvents (step settings) ((init now).run settings) es = some c) :
    (∃ n, c.chain <+: openChain n) ∧
      c.responses = observe (step settings) (answers settings) ((init now).run settings) es ∧
      c.responses.length ≤ 1 ∧
      (c.responses ≠ [] → c.chain = [.sslHandshake, .requestRead] ∧ c.delivered = []) := by
  have hcourse := (run_invariant (fun _ _ _ => step_kept) (run_kept settings now) h).1
  exact ⟨course_chain hcourse, run_answers h, course_one_answer hcourse⟩

open WsConnection in
/-- A client that asks for something else than a websocket. -/
theorem one_answer_plain : ∃ es c, runEvents (step defaultSettings)
      ((init 0).run defaultSettings) es = some c ∧
    c.responses = [⟨501, "Not implemented"⟩] ∧ c.responses.length ≤ 1 := by
  refine ⟨[.sslHandshake (.ok ()), .requestRead (.ok ⟨false, [5]⟩) 1, .shutdownDone (.ok ())], ?_,
    ?run, ?_, (one_answer _ _ _ _ ?run).2.2.1⟩
  case run => rfl
  rfl

open WsConnection CourseLemmas in
/-- Whatever happens, the messages a connection processes are those that have
been read, whole, each once and in order, but for the ones at which the rate
limiter or the check for text has ended it; and a read starts with an empty
buffer. -/
theorem messages_whole (settings : Settings) (now : Int) (es : List WsEvent) (c : WsConnection)
    (h : runEvents (step settings) ((init now).run settings) es = some c) :
    c.delivered =
        (observe (step settings) (taken settings) ((init now).run settings) es).map .fromVector ∧
      (.read ∈ c.pending → c.readBuffer = []) := by
  have hcourse := (run_invariant (fun _ _ _ => step_kept) (run_kept settings now) h).1
  refine ⟨run_taken (run_kept settings now) h, fun hread => ?_⟩
  obtain ⟨_, _, _, hbuffer, _⟩ :=
    course_read hcourse (List.mem_filter.mpr ⟨hread, rfl⟩)
  exact hbuffer

open WsConnection in
/-- Two messages, of which the second one is text. -/
theorem messages_whole_text : ∃ es c, runEvents (step defaultSettings)
      ((init 0).run defaultSettings) es = some c ∧
    c.delivered = (observe (step defaultSettings) (taken defaultSettings)
      ((init 0).run defaultSettings) es).map .fromVector ∧
    c.delivered = [.fromVector [7, 8]] := by
  refine ⟨[.sslHandshake (.ok ()), .requestRead (.ok ⟨true, [5]⟩) 1, .wsHandshake (.ok ()),
    .read (.ok ⟨[7, 8], true⟩), .read (.ok ⟨[9], false⟩)], ?_, ?run,
    (messages_whole _ _ _ _ ?run).1, ?_⟩
  case run => rfl
  rfl

end Ian.Front
