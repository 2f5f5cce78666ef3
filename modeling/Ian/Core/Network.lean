import Ian.Core.Magic
import Ian.Lib.Machine

/-!
# The client's side of the connection

`ian_net.connect` opens a WebSocket and lets `onHandshakeMessage` take its first
message. If that message holds the magic the socket is handed over to
`onMessage`, if not it is closed. `step` is what the browser does with the
socket: it opens, messages arrive, it closes; a message that arrives while the
socket is closing is dropped.
-/

namespace Ian.Core

open Lib

/-- What the page passes to the script. -/
structure IanCfg where
  magic : Magic
  wsProto : String

inductive ReadyState where
  | connecting
  | opened
  | closing
  | closed
deriving DecidableEq, Repr

inductive MessageHandler where
  | onHandshakeMessage
  | onMessage
deriving DecidableEq, Repr

structure WebSocket where
  server : String
  protocols : List String
  binaryType : String
  readyState : ReadyState
  onmessage : Option MessageHandler
deriving DecidableEq, Repr

structure Notification where
  message : String
  cssclass : Option String
deriving DecidableEq, Repr

/-- What the script shows of the connection. -/
structure Page where
  login : Bool
  loading : Bool
  loadingText : String
  notifications : List Notification
deriving DecidableEq, Repr

structure Client where
  page : Page
  socket : WebSocket
deriving DecidableEq, Repr

def WebSocket.new (server : String) (protocols : List String) : WebSocket :=
  ⟨server, protocols, "blob", .connecting, none⟩

def WebSocket.close (socket : WebSocket) : WebSocket :=
  match socket.readyState with
  | .connecting | .opened => { socket with readyState := .closing }
  | .closing | .closed => socket

namespace Client

def notify (c : Client) (message : String) (cssclass : Option String) : Client :=
  { c with page.notifications := c.page.notifications ++ [⟨message, cssclass⟩] }

def closeSocket (c : Client) : Client := { c with socket := c.socket.close }

def onOpen (c : Client) : Client := { c with page.loadingText := "Connected" }

def onClose (c : Client) (code : Nat) (reason : String) : Client :=
  let c := { c with page.login := true, page.loading := false }
  if reason ≠ "" then c.notify ("Connection closed : " ++ reason) (some "error")
  else if code = 1000 then c.notify "Disconnected from server" none
  else if code = 1006 then c.notify "Connection error" (some "error")
  else c.notify ("net:onClose " ++ toString code) none

def onError (c : Client) : Client := c.notify "net:onError" none

def onMessage (c : Client) (_data : Data) : Client := c

def onHandshakeMessage (cfg : IanCfg) (c : Client) (data : Data) : Client :=
  match DataView.new data >>= checkMagic cfg.magic.text with
  | .ok true =>
    let c := c.notify "net:onHandshakeMessage good magic" (some "info")
    { c with socket.onmessage := some .onMessage }
  | .ok false => (c.notify "net:onHandshakeMessage bad magic" (some "error")).closeSocket
  | .error _ => (c.notify "net:onHandshakeMessage exception" (some "error")).closeSocket

def connect (cfg : IanCfg) (server : String) (page : Page) : Client where
  page := { page with login := false, loadingText := "Connecting", loading := true }
  socket :=
    { WebSocket.new server [cfg.wsProto, String.ofList cfg.magic.text] with
      binaryType := "arraybuffer"
      onmessage := some .onHandshakeMessage }

end Client

/-! ## The connection -/

inductive Event where
  | opened
  | message (data : Data)
  | closed (failed : Bool) (code : Nat) (reason : String)
deriving DecidableEq, Repr

/-- A message event is given to the handler set last. -/
def dispatch (cfg : IanCfg) (c : Client) (data : Data) : Client :=
  match c.socket.onmessage with
  | none => c
  | some .onHandshakeMessage => c.onHandshakeMessage cfg data
  | some .onMessage => c.onMessage data

def step (cfg : IanCfg) (c : Client) : Event → Option Client
  | .opened =>
    match c.socket.readyState with
    | .connecting => some (Client.onOpen { c with socket.readyState := .opened })
    | .opened | .closing | .closed => none
  | .message data =>
    match c.socket.readyState with
    | .opened => some (dispatch cfg c data)
    | .closing => some c
    | .connecting | .closed => none
  | .closed failed code reason =>
    match c.socket.readyState with
    | .connecting | .opened | .closing =>
      let c := { c with socket.readyState := .closed }
      some ((if failed then c.onError else c).onClose code reason)
    | .closed => none

/-! ## What the handshake is for -/

/-- The message has at least 16 bytes, and its first 16 are these. -/
def OpensWith (bytes : List UInt8) : Data → Prop
  | .arrayBuffer message => 16 ≤ message.length ∧ message.take 16 = bytes
  | .text _ => False

instance (bytes : List UInt8) : ∀ data : Data, Decidable (OpensWith bytes data)
  | .arrayBuffer _ => inferInstanceAs (Decidable (_ ∧ _))
  | .text _ => isFalse id

/-- The message that `onHandshakeMessage` is called with. -/
def handshakeData (c : Client) : Event → Option Data
  | .message data =>
    if c.socket.readyState = .opened ∧ c.socket.onmessage = some .onHandshakeMessage then some data
    else none
  | .opened | .closed _ _ _ => none

/-- The socket is closed, and `onMessage` is never installed. -/
def TurnedAway (cfg : IanCfg) (c : Client) : Prop :=
  c.socket.readyState = .closing ∧
    ∀ es c', runEvents (step cfg) c es = some c' → c'.socket.onmessage ≠ some .onMessage

/-- The socket is handed over if and only if the message holds the magic. -/
def HandshakeCorrect (cfg : IanCfg) (c : Client) (e : Event) : Prop :=
  ∀ data, handshakeData c e = some data → ∀ c', step cfg c e = some c' →
    (c'.socket.onmessage = some .onMessage ↔ OpensWith cfg.magic.bytes data) ∧
      (¬OpensWith cfg.magic.bytes data → TurnedAway cfg c')

/-- The magic has no digit to lose, or the message holds neither the magic nor
what the client reads in its place. -/
def Harmless (magic : Magic) (data : Data) : Prop :=
  (∀ c ∈ magic.text, c = '0') ∨
    (¬OpensWith magic.bytes data ∧ ¬OpensWith (hexBytes magic.heard) data)

def firstMessage : List Event → Option Data
  | [] => none
  | .message data :: _ => some data
  | .opened :: es | .closed _ _ _ :: es => firstMessage es

/-! ## One message -/

variable {cfg : IanCfg}

/-- The two outcomes of the handshake. -/
inductive Answered (cfg : IanCfg) (c : Client) (data : Data) (c' : Client) : Prop where
  | accepted (hdata : OpensWith (hexBytes cfg.magic.heard) data)
    (hhandler : c'.socket.onmessage = some .onMessage)
    (hstate : c'.socket.readyState = c.socket.readyState)
  | rejected (hdata : ¬OpensWith (hexBytes cfg.magic.heard) data)
    (hhandler : c'.socket.onmessage = c.socket.onmessage)
    (hclosed : c'.socket.readyState = c.socket.close.readyState)

theorem checks_iff (magic : Magic) (data : Data) :
    (DataView.new data >>= checkMagic magic.text) = .ok true ↔
      OpensWith (hexBytes magic.heard) data := by
  cases data with
  | arrayBuffer bytes => exact checkMagic_iff magic bytes
  | text string => exact ⟨(nomatch ·), False.elim⟩

theorem close_onmessage (socket : WebSocket) : socket.close.onmessage = socket.onmessage := by
  unfold WebSocket.close
  split <;> rfl

theorem onHandshakeMessage_answered (cfg : IanCfg) (c : Client) (data : Data) :
    Answered cfg c data (c.onHandshakeMessage cfg data) := by
  have hiff := checks_iff cfg.magic data
  unfold Client.onHandshakeMessage
  split
  next h => exact .accepted (hiff.mp h) rfl rfl
  next h =>
    refine .rejected (fun hdata => ?_) (close_onmessage c.socket) rfl
    rw [hiff.mpr hdata] at h
    cases h
  next h =>
    refine .rejected (fun hdata => ?_) (close_onmessage c.socket) rfl
    rw [hiff.mpr hdata] at h
    cases h

/-- The handshake is over: no later message is given to `onHandshakeMessage`. -/
def Over (c : Client) : Prop :=
  c.socket.readyState ≠ .connecting ∧
    (c.socket.readyState = .opened → c.socket.onmessage = some .onMessage)

theorem onClose_socket (c : Client) (code : Nat) (reason : String) :
    (c.onClose code reason).socket = c.socket := by
  unfold Client.onClose
  split_ifs <;> rfl

/-- What a step does to the socket. -/
inductive StepCases (cfg : IanCfg) (c c' : Client) : Event → Prop where
  | opened (hstate : c.socket.readyState = .connecting)
    (hsocket : c'.socket = { c.socket with readyState := .opened }) : StepCases cfg c c' .opened
  | message {data : Data} (hstate : c.socket.readyState = .opened)
    (hclient : c' = dispatch cfg c data) : StepCases cfg c c' (.message data)
  | dropped {data : Data} (hstate : c.socket.readyState = .closing) (hclient : c' = c) :
    StepCases cfg c c' (.message data)
  | closed {failed : Bool} {code : Nat} {reason : String} (hstate : c.socket.readyState ≠ .closed)
    (hsocket : c'.socket = { c.socket with readyState := .closed }) :
    StepCases cfg c c' (.closed failed code reason)

theorem step_cases {c c' : Client} {e : Event} (h : step cfg c e = some c') :
    StepCases cfg c c' e := by
  cases e with
  | opened =>
    simp only [step] at h
    split at h
    next hstate =>
      cases h
      exact .opened hstate rfl
    all_goals cases h
  | message data =>
    simp only [step] at h
    split at h
    next hstate => exact .message hstate (Option.some.inj h).symm
    next hstate => exact .dropped hstate (Option.some.inj h).symm
    all_goals cases h
  | closed failed code reason =>
    have hsocket : ∀ c : Client, ((if failed then c.onError else c).onClose code reason).socket =
        c.socket := by
      intro c
      rw [onClose_socket]
      split_ifs <;> rfl
    by_cases hstate : c.socket.readyState = .closed
    · simp [step, hstate] at h
    · refine .closed hstate ?_
      have hsome : step cfg c (.closed failed code reason) = some ((if failed then
          ({ c with socket.readyState := .closed } : Client).onError
        else { c with socket.readyState := .closed }).onClose code reason) := by
        cases hready : c.socket.readyState with
        | closed => exact absurd hready hstate
        | connecting | opened | closing => simp only [step, hready]
      rw [← Option.some.inj (hsome.symm.trans h), hsocket]

theorem step_over {c c' : Client} {e : Event} (hover : Over c) (h : step cfg c e = some c') :
    Over c' ∧ c'.socket.onmessage = c.socket.onmessage := by
  cases step_cases h with
  | opened hstate => exact absurd hstate hover.1
  | message hstate hclient =>
    rw [hclient, dispatch, hover.2 hstate]
    exact ⟨hover, hover.2 hstate⟩
  | dropped hstate hclient =>
    rw [hclient]
    exact ⟨hover, rfl⟩
  | closed hstate hsocket =>
    rw [Over, hsocket]
    exact ⟨⟨by simp, by simp⟩, rfl⟩

theorem handshakeData_over {c : Client} (hover : Over c) (e : Event) :
    handshakeData c e = none := by
  cases e with
  | opened => rfl
  | closed failed code reason => rfl
  | message data =>
    rw [handshakeData, if_neg]
    rintro ⟨hstate, hhandler⟩
    rw [hover.2 hstate] at hhandler
    cases hhandler

theorem turnedAway {c : Client} (hstate : c.socket.readyState = .closing)
    (hhandler : c.socket.onmessage = some .onHandshakeMessage) : TurnedAway cfg c := by
  refine ⟨hstate, fun es c' hrun => ?_⟩
  have hover : Over c := by simp [Over, hstate]
  have hkept : Over c' ∧ c'.socket.onmessage = some .onHandshakeMessage := by
    refine run_invariant (I := fun c => Over c ∧ c.socket.onmessage = some .onHandshakeMessage)
      ?_ ⟨hover, hhandler⟩ hrun
    intro c e c' hinv hstep
    obtain ⟨hover', hsame⟩ := step_over hinv.1 hstep
    exact ⟨hover', hsame.trans hinv.2⟩
  rw [hkept.2]
  decide

/-- The step in which `onHandshakeMessage` takes a message. -/
theorem handshakeData_step (cfg : IanCfg) {c : Client} {e : Event} {data : Data}
    (h : handshakeData c e = some data) :
    c.socket.readyState = .opened ∧ c.socket.onmessage = some .onHandshakeMessage ∧
      step cfg c e = some (c.onHandshakeMessage cfg data) := by
  cases e with
  | opened => cases h
  | closed failed code reason => cases h
  | message data' =>
    rw [handshakeData] at h
    split at h
    next hc =>
      cases h
      refine ⟨hc.1, hc.2, ?_⟩
      rw [step, hc.1]
      simp only [dispatch, hc.2]
    next => cases h

theorem harmless_iff (magic : Magic) (data : Data) :
    (OpensWith (hexBytes magic.heard) data ↔ OpensWith magic.bytes data) ↔
      Harmless magic data := by
  rw [Harmless, ← magic.heard_eq_bytes_iff]
  constructor
  · intro hiff
    by_cases hdata : OpensWith magic.bytes data
    · have hheard := hiff.mpr hdata
      cases data with
      | arrayBuffer message => exact .inl (hheard.2.symm.trans hdata.2)
      | text string => exact hdata.elim
    · exact .inr ⟨hdata, fun hheard => hdata (hiff.mp hheard)⟩
  · rintro (hsame | ⟨hright, hwrong⟩)
    · rw [hsame]
    · exact ⟨fun h => absurd h hwrong, fun h => absurd h hright⟩

/-- One message is answered right exactly if it is harmless. -/
theorem handshakeCorrect_iff (c : Client) (e : Event) :
    HandshakeCorrect cfg c e ↔
      ∀ data, handshakeData c e = some data → Harmless cfg.magic data := by
  constructor
  · intro hcorrect data hdata
    obtain ⟨-, hhandler, hstep⟩ := handshakeData_step cfg hdata
    have hiff := (hcorrect data hdata _ hstep).1
    rw [← harmless_iff]
    rcases onHandshakeMessage_answered cfg c data with
      ⟨hheard, hset, -⟩ | ⟨hheard, hkept, -⟩
    · exact ⟨fun _ => hiff.mp hset, fun _ => hheard⟩
    · refine ⟨fun h => absurd h hheard, fun h => ?_⟩
      have hset := hiff.mpr h
      rw [hkept, hhandler] at hset
      cases hset
  · intro hharmless data hdata c' hstep
    obtain ⟨hstate, hhandler, htaken⟩ := handshakeData_step cfg hdata
    have hiff := (harmless_iff cfg.magic data).mpr (hharmless data hdata)
    cases hstep.symm.trans htaken
    rw [← hiff]
    rcases onHandshakeMessage_answered cfg c data with
      ⟨hheard, hset, -⟩ | ⟨hheard, hkept, hclosed⟩
    · exact ⟨⟨fun _ => hheard, fun _ => hset⟩, fun h => absurd hheard h⟩
    · rw [hhandler] at hkept
      refine ⟨⟨fun h => ?_, fun h => absurd h hheard⟩, fun _ => turnedAway ?_ hkept⟩
      · rw [hkept] at h
        cases h
      · rw [hclosed, WebSocket.close, hstate]

/-! ## A connection -/

/-- The connection still waits for its first message. -/
def Waiting (c : Client) : Prop :=
  (c.socket.readyState = .connecting ∨ c.socket.readyState = .opened) ∧
    c.socket.onmessage = some .onHandshakeMessage

theorem connect_waiting (cfg : IanCfg) (server : String) (page : Page) :
    Waiting (Client.connect cfg server page) := ⟨.inl rfl, rfl⟩

theorem answered_over {c c' : Client} {data : Data} (hstate : c.socket.readyState = .opened)
    (h : Answered cfg c data c') : Over c' := by
  cases h with
  | accepted hdata hhandler hkept =>
    rw [hstate] at hkept
    exact ⟨by simp [hkept], fun _ => hhandler⟩
  | rejected hdata hhandler hclosed =>
    have hclosing : c'.socket.readyState = .closing := by rw [hclosed, WebSocket.close, hstate]
    exact ⟨by simp [hclosing], by simp [hclosing]⟩

theorem run_closed {c c' : Client} {es : List Event} (hclosed : c.socket.readyState = .closed)
    (hrun : runEvents (step cfg) c es = some c') : es = [] := by
  cases es with
  | nil => rfl
  | cons e es =>
    obtain ⟨t, ht, -⟩ := Option.bind_eq_some_iff.mp hrun
    cases step_cases ht with
    | opened hstate => simp [hclosed] at hstate
    | message hstate => simp [hclosed] at hstate
    | dropped hstate => simp [hclosed] at hstate
    | closed hstate => exact absurd hclosed hstate

theorem over_run {c : Client} (hover : Over c) (P : Data → Prop) (es : List Event) :
    AllSteps (step cfg) (fun c e => ∀ data, handshakeData c e = some data → P data) c es := by
  refine allSteps_of_invariant (I := Over) (fun c e c' hover h => (step_over hover h).1) ?_ hover es
  intro c e hover data hdata
  rw [handshakeData_over hover e] at hdata
  cases hdata

/-- Only the first message of a connection is given to `onHandshakeMessage`. -/
theorem allSteps_iff_firstMessage (P : Data → Prop) {c c' : Client} {es : List Event}
    (hwait : Waiting c) (hrun : runEvents (step cfg) c es = some c') :
    AllSteps (step cfg) (fun c e => ∀ data, handshakeData c e = some data → P data) c es ↔
      ∀ data, firstMessage es = some data → P data := by
  induction es generalizing c with
  | nil => exact ⟨fun _ _ hdata => (nomatch hdata), fun _ => trivial⟩
  | cons e es ih =>
    obtain ⟨t, ht, hrest⟩ := Option.bind_eq_some_iff.mp hrun
    cases step_cases ht with
    | opened hstate hsocket =>
      have hwait' : Waiting t := by
        rw [Waiting, hsocket]
        exact ⟨.inr rfl, hwait.2⟩
      rw [firstMessage, ← ih hwait' hrest]
      constructor
      · exact fun h => h.2 t ht
      · refine fun h => ⟨fun _ hdata => (nomatch hdata), fun t' ht' => ?_⟩
        cases ht.symm.trans ht'
        exact h
    | message hstate hclient =>
      rename_i data
      have htaken : handshakeData c (.message data) = some data := if_pos ⟨hstate, hwait.2⟩
      have hover : Over t := by
        rw [hclient, dispatch, hwait.2]
        exact answered_over hstate (onHandshakeMessage_answered cfg c data)
      constructor
      · rintro h _ ⟨⟩
        exact h.1 data htaken
      · refine fun h => ⟨fun data' hdata => h data' ?_, fun t' ht' => ?_⟩
        · exact htaken.symm.trans hdata
        · cases ht.symm.trans ht'
          exact over_run hover P es
    | dropped hstate => simp [Waiting, hstate] at hwait
    | closed hstate hsocket =>
      obtain rfl : es = [] := run_closed (by rw [hsocket]) hrest
      refine ⟨fun _ _ hdata => (nomatch hdata), fun _ => ⟨fun _ hdata => (nomatch hdata), ?_⟩⟩
      exact fun _ _ => trivial

theorem handshake_correct_iff (cfg : IanCfg) (server : String) (page : Page) {es : List Event}
    {c : Client} (hrun : runEvents (step cfg) (Client.connect cfg server page) es = some c) :
    AllSteps (step cfg) (HandshakeCorrect cfg) (Client.connect cfg server page) es ↔
      ∀ data, firstMessage es = some data → Harmless cfg.magic data := by
  rw [← allSteps_iff_firstMessage _ (connect_waiting cfg server page) hrun]
  exact allSteps_congr (I := fun _ => True) (fun _ _ _ _ _ => trivial)
    (fun c e _ _ _ => handshakeCorrect_iff c e) trivial hrun

def sampleCfg : IanCfg where
  magic := ⟨"0123456789abcdef0123456789abcdef".toList, rfl, List.all_eq_true.mp rfl⟩
  wsProto := "ian"

/-- The bytes of the magic. -/
def sampleMessage : List UInt8 :=
  [0x01, 0x23, 0x45, 0x67, 0x89, 0xab, 0xcd, 0xef, 0x01, 0x23, 0x45, 0x67, 0x89, 0xab, 0xcd, 0xef]

/-- What the client takes for the magic. -/
def sampleHeard : List UInt8 :=
  [0x00, 0x12, 0x34, 0x56, 0x08, 0x9a, 0xbc, 0xde, 0x00, 0x12, 0x34, 0x56, 0x08, 0x9a, 0xbc, 0xde]

theorem handshake_correct_short :
    AllSteps (step sampleCfg) (HandshakeCorrect sampleCfg)
      (Client.connect sampleCfg "wss://localhost" ⟨true, false, "", []⟩)
      [.opened, .message (.arrayBuffer [1, 2, 3]), .message (.arrayBuffer sampleMessage)] := by
  refine (handshake_correct_iff sampleCfg "wss://localhost" ⟨true, false, "", []⟩ rfl).mpr ?_
  rintro _ ⟨⟩
  exact .inr (by decide)

/-- The server's right magic is turned away, and a wrong one is taken. -/
theorem handshake_not_correct :
    ¬AllSteps (step sampleCfg) (HandshakeCorrect sampleCfg)
        (Client.connect sampleCfg "wss://localhost" ⟨true, false, "", []⟩)
        [.opened, .message (.arrayBuffer sampleMessage)] ∧
      ¬AllSteps (step sampleCfg) (HandshakeCorrect sampleCfg)
        (Client.connect sampleCfg "wss://localhost" ⟨true, false, "", []⟩)
        [.opened, .message (.arrayBuffer sampleHeard)] := by
  constructor
  · intro h
    have hiff := (((h.2 _ rfl).1 _ rfl) _ rfl).1
    exact absurd (hiff.mpr (by decide)) (by decide)
  · intro h
    have hiff := (((h.2 _ rfl).1 _ rfl) _ rfl).1
    exact absurd (hiff.mp (by decide)) (by decide)

end Ian.Core
