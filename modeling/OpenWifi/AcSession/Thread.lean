import OpenWifi.AcSession.Dispatch

/-!
# What the thread of a session does

`ac_session_run` with the queues that other threads fill, the two timers of the session and the results of
`ac_network_read`.  What concerns stations and WLANs is left out: it does not call `ac_session_teardown`.
-/

namespace OpenWifi.AcSession

open Option

/-! ## Timers -/

/-- The timers of a session: `idtimercontrol` and `idtimerkeepalivedead`. -/
inductive SessionTimer
  | control | keepalivedead
  deriving DecidableEq

/-- The timers of `session->timeout`: the indexes up to `used` have been given out, and 0 is
`CAPWAP_TIMEOUT_INDEX_NO_SET`. -/
structure Timers where
  used : ℕ
  pending : ℕ → Option Timer

namespace Timers

/-- `capwap_timeout_set`; without an index, a new timer is created. -/
def set (timers : Timers) (index : ℕ) (timer : Timer) : Timers :=
  if index = 0 then
    { used := timers.used + 1, pending := Function.update timers.pending (timers.used + 1) (some timer) }
  else { timers with pending := Function.update timers.pending index (some timer) }

/-- `capwap_timeout_unset`. -/
def unset (timers : Timers) (index : ℕ) : Timers :=
  if index = 0 then timers else { timers with pending := Function.update timers.pending index none }

end Timers

/-- `AC_DTLS_INTERVAL`. -/
def dtlsInterval : ℕ := 60000

/-- `AC_JOIN_INTERVAL`. -/
def joinInterval : ℕ := 60000

/-- `AC_CHANGE_STATE_PENDING_INTERVAL`. -/
def changeStatePendingInterval : ℕ := 25000

/-- `AC_DATA_CHECK_INTERVAL`. -/
def dataCheckInterval : ℕ := 30000

/-! ## Results of `ac_network_read` -/

/-- `AC_NO_ERROR`. -/
def noError : ℤ := -1000

/-- `AC_ERROR_TIMEOUT`. -/
def errorTimeout : ℤ := -1001

/-- `CAPWAP_ERROR_SHUTDOWN`. -/
def errorShutdown : ℤ := -1

/-- `CAPWAP_ERROR_CLOSE`. -/
def errorClose : ℤ := -2

inductive QueuedAction
  | close
  | resetWtp
  | addwlan (radioid wlanid : ℕ)
  | recvKeepalive
  | recvIeee80211MgmtPacket
  | notifyEvent (event : NotifyEvent)
  | addStation (radioid wlanid : ℕ)
  | deleteStation (radioid : ℕ)
  | stationRoaming
  deriving DecidableEq

inductive PlainText (ε : Type)
  | unfinished
  | unreadable
  | message (packet : Packet ε)

inductive QueuedPacket (ε : Type)
  /-- Decrypting it gives no text but the result `-code`; `handshake` when the handshake is complete with it. -/
  | silent (code : ℕ) (handshake : Bool)
  | text (text : PlainText ε)

/-- What `ac_network_read` returns: a number that is not positive, or the text in its buffer. -/
inductive ReadResult (ε : Type)
  | length (code : ℤ)
  | text (text : PlainText ε)

/-! ## The thread -/

inductive Effect
  /-- `ac_session_action_execute` is called. -/
  | action
  /-- `ac_dfa_execute` is called with a message. -/
  | message (type : MessageType)
  /-- `capwap_timeout_set` is called for a timer of the session, with the index that the session has for it. -/
  | arm (timer : SessionTimer) (index : ℕ)
  /-- `session->state` is written. -/
  | enter (state : SessionState)
  /-- `ac_session_teardown` is called. -/
  | teardown
  /-- The session is removed from `g_ac.sessions`. -/
  | unlink
  deriving DecidableEq

/-- `struct ac_session_t`, with the trace; `request` says whether `requestfragmentpacket` has packets. -/
structure Thread (ε : Type) where
  life : Life
  running : Bool
  timers : Timers
  idtimercontrol : ℕ
  idtimerkeepalivedead : ℕ
  request : Bool
  retransmitcount : ℕ
  action : List QueuedAction
  packets : List (QueuedPacket ε)
  trace : List Effect

structure Replies where
  answers : Answers
  /-- `ac_wlans_get_bssid_with_wlanid` finds the WLAN of the action. -/
  wlan : Bool
  /-- `ac_soap_authorizestation` answers with the index of a data channel. -/
  datachannel : Bool
  /-- `ac_kmod_authorize_station` succeeds. -/
  authorizeStation : Bool
  /-- `ac_soap_runningwtpsession` succeeds. -/
  running : Bool
  expired : Option ℕ
  deriving DecidableEq

variable {ε : Type}

namespace Thread

variable (t : Thread ε)

def log (effect : Effect) : Thread ε := { t with trace := t.trace ++ [effect] }

def withLife (f : Life → Life) : Thread ε := { t with life := f t.life }

def index : SessionTimer → ℕ
  | .control => t.idtimercontrol
  | .keepalivedead => t.idtimerkeepalivedead

/-- `capwap_timeout_set` for a timer of the session. -/
def arm (timer : SessionTimer) (durate : ℕ) (callback : Timeout) : Thread ε :=
  ({ t with timers := t.timers.set (t.index timer) ⟨durate, callback⟩ }).log (.arm timer (t.index timer))

/-- `ac_dfa_change_state`. -/
def changeState (state : SessionState) : Thread ε :=
  if state = t.life.state then t else (t.withLife (·.changeState state)).log (.enter state)

/-- `ac_session_teardown`. -/
def teardown : Thread ε :=
  let t := (t.log .teardown).log .unlink
  let t := { t with packets := [] }
  let t := t.withLife fun s => { s with
    notifyevent := []
    reports := s.reports ++ s.notifyevent.map (Report.mk · .cancel .teardown) }
  let t := { t with timers := t.timers.unset t.idtimercontrol, idtimercontrol := 0 }
  let t := { t with timers := t.timers.unset t.idtimerkeepalivedead, idtimerkeepalivedead := 0 }
  t.changeState .dtlsTeardown

/-! ## Actions -/

/-- The end of the functions that send a request.  The session goes on in `state` when it is sent and `accepted`;
otherwise it ends. -/
def sendRequest (state : SessionState) (accepted : Bool) (r : Replies) : Thread ε :=
  if r.answers.sent && accepted then
    (({ t with request := true, retransmitcount := 0 }).changeState state).arm .control retransmitInterval
      .retransmition
  else ({ t with request := false }).teardown

variable (r : Replies)

/-- `ac_session_action_resetwtp`. -/
def actionResetwtp : Thread ε := t.sendRequest .reset true r

/-- `ac_session_action_addwlan`. -/
def actionAddwlan (radioid wlanid : ℕ) (r : Replies) : Thread ε :=
  if !Session.isValidRadioid radioid || !Session.isValidWlanid wlanid then t
  else if r.wlan then t
  else t.sendRequest t.life.state true r

/-- `ac_session_action_station_configuration_ieee8011_add_station`. -/
def actionAddStation (radioid wlanid : ℕ) (r : Replies) : Thread ε :=
  if !Session.isValidRadioid radioid || !Session.isValidWlanid wlanid then t
  else if r.datachannel && r.wlan then t.sendRequest t.life.state r.authorizeStation r
  else t

/-- `ac_session_action_station_configuration_ieee8011_delete_station`. -/
def actionDeleteStation (radioid : ℕ) (r : Replies) : Thread ε :=
  if !Session.isValidRadioid radioid then t else t.sendRequest t.life.state true r

/-- The keep-alive of `ac_session_action_execute`. -/
def actionRecvKeepalive : Thread ε × ℤ :=
  let t := t.arm .keepalivedead maxDataKeepaliveInterval .teardown
  if t.life.state = .dataCheckToRun then
    if r.running then ((t.changeState .run).arm .control maxEchoInterval .teardown, noError) else (t, errorClose)
  else (t, noError)

/-- `ac_session_action_execute`. -/
def actionExecute : QueuedAction → Thread ε × ℤ
  | .close => (t, errorClose)
  | .resetWtp => (t.actionResetwtp r, noError)
  | .addwlan radioid wlanid => (t.actionAddwlan radioid wlanid r, noError)
  | .recvKeepalive => t.actionRecvKeepalive r
  | .recvIeee80211MgmtPacket => (t, noError)
  | .notifyEvent event =>
    (t.withLife fun s => { s with notifyevent := s.notifyevent ++ [event], queued := s.queued ++ [event] }, noError)
  | .addStation radioid wlanid => (t.actionAddStation radioid wlanid r, noError)
  | .deleteStation radioid => (t.actionDeleteStation radioid r, noError)
  | .stationRoaming => (t, noError)

/-- `ac_dfa_retransmition_timeout`. -/
def retransmitionTimeout : Thread ε :=
  if !t.request then t.teardown
  else
    let t := { t with retransmitcount := t.retransmitcount + 1 }
    if maxRetransmit ≤ t.retransmitcount then ({ t with request := false }).teardown
    else t.arm .control retransmitInterval .retransmition

def callTimer : Timeout → Thread ε
  | .retransmition => t.retransmitionTimeout
  | .teardown => t.teardown

/-- `capwap_timeout_hasexpired`, for the timer at the index. -/
def hasexpired (index : ℕ) : Thread ε :=
  match t.timers.pending index with
  | none => t
  | some timer => ({ t with timers := t.timers.unset index }).callTimer timer.callback

/-- The part of `ac_network_read` for a packet. -/
def readPacket : QueuedPacket ε → Thread ε × ReadResult ε
  | .silent code handshake =>
    if code = 0 ∧ handshake ∧ t.life.state = .dtlsConnect then
      ((t.changeState .join).arm .control joinInterval .teardown, .length 0)
    else (t, .length (-code))
  | .text text => (t, .text text)

/-- `ac_network_read`; there is no result when it waits. -/
def networkRead : Thread ε × Option (ReadResult ε) :=
  if !t.running then (t, some (.length errorClose))
  else match t.request, t.action, t.packets, r.expired with
    | false, action :: rest, _, _ =>
      let executed := (({ t with action := rest }).log .action).actionExecute r action
      (executed.1, some (.length executed.2))
    | _, _, packet :: rest, _ =>
      let read := ({ t with packets := rest }).readPacket packet
      (read.1, some read.2)
    | _, _, [], some index => (t.hasexpired index, some (.length errorTimeout))
    | _, _, [], none => (t, none)

/-! ## Messages -/

variable (packet : Packet ε)

def saveRemote : Thread ε := t.withLife (·.saveRemote packet)

variable (a : Answers)

/-- `ac_dfa_state_join`. -/
def dfaStateJoin : Except NullRead (Thread ε) := do
  let authorized ← Life.joinAuthorize packet a
  let t := t.withLife fun s => if authorized then { s with binding := packet.binding } else s
  let success ← Life.joinResult packet a authorized
  let t := t.saveRemote packet
  return if a.sent && success then (t.changeState .postjoin).arm .control joinInterval .teardown else t.teardown

/-- `ac_dfa_state_configure`. -/
def dfaStateConfigure : Except NullRead (Thread ε) := do
  let success ← Life.configureResult packet a
  let t := t.saveRemote packet
  return if success then (t.changeState .dataCheck).arm .control changeStatePendingInterval .teardown else t.teardown

/-- `ac_dfa_state_imagedata`. -/
def dfaStateImagedata : Thread ε := t.teardown

/-- `ac_dfa_state_postjoin`. -/
def dfaStatePostjoin : Except NullRead (Thread ε) :=
  match packet.type with
  | .configurationStatusRequest => (t.changeState .configure).dfaStateConfigure packet a
  | .imageDataRequest => .ok (t.changeState .imageData).dfaStateImagedata
  | _ => .ok t.teardown

/-- `ac_dfa_state_datacheck`. -/
def dfaStateDatacheck : Except NullRead (Thread ε) := do
  let response ← Life.datacheckParsingRequest packet a
  let t := t.saveRemote packet
  return if response = some true && a.datasession then
    ((t.changeState .dataCheckToRun).arm .control dataCheckInterval .teardown).arm .keepalivedead
      maxDataKeepaliveInterval .teardown
  else t.teardown

def armEcho : Thread ε := t.arm .control maxEchoInterval .teardown

/-- The `switch` of `ac_dfa_state_run`. -/
def runMessage : Except NullRead (Thread ε) :=
  match packet.type with
  | .configurationUpdateResponse | .changeStateEventRequest | .clearConfigurationResponse | .wtpEventRequest
  | .dataTransferRequest | .dataTransferResponse => .ok t.armEcho
  | .echoRequest => .ok (if a.validSession then (t.saveRemote packet).armEcho else t.teardown)
  | .stationConfigurationResponse => do
    Life.receiveStationConfigurationResponse packet a
    return ({ t with request := false }).armEcho
  | .wlanConfigurationResponse => do
    packet.read .resultcode
    return ({ t with request := false }).armEcho
  | _ => .ok t

def nextSequence : Thread ε :=
  t.withLife fun s => { s with localseqnumber := (s.localseqnumber + 1) % 256 }

/-- `ac_dfa_state_run`. -/
def dfaStateRun : Except NullRead (Thread ε) :=
  if packet.type.isRequest then t.runMessage packet a
  else if t.life.localseqnumber = packet.seq then t.nextSequence.runMessage packet a
  else .ok t

/-- `ac_dfa_state_reset`. -/
def dfaStateReset : Thread ε :=
  if packet.binding = t.life.binding ∧ packet.type = .resetResponse ∧ t.life.localseqnumber = packet.seq then
    ({ t.nextSequence with request := false }).teardown
  else t

/-- `ac_dfa_execute`. -/
def dfaExecute : Except NullRead (Thread ε) :=
  match t.life.state with
  | .join => t.dfaStateJoin packet a
  | .postjoin => t.dfaStatePostjoin packet a
  | .imageData => .ok t.dfaStateImagedata
  | .configure => t.dfaStateConfigure packet a
  | .reset => .ok (t.dfaStateReset packet)
  | .dataCheck => t.dfaStateDatacheck packet a
  | .run => t.dfaStateRun packet a
  | _ => .ok t.teardown

/-! ## The loop -/

def isRepeated : Bool :=
  packet.type.isRequest ∧ t.life.remotetype = packet.type.number ∧ t.life.remoteseqnumber = packet.seq

variable (code : ε → ℕ)

/-- What the loop does with a text; `none` when a null pointer is read. -/
def handleText (t : Thread ε) (a : Answers) : PlainText ε → Option (Thread ε)
  | .unfinished => some t
  | .unreadable => some t
  | .message packet =>
    if t.isRepeated packet then some t
    else if validateParsedPacket code packet.binding packet.type packet.messages then
      (((t.withLife (·.notifyMessage code packet)).log (.message packet.type)).dfaExecute packet
        { a with request := a.request && t.request }).toOption
    else some t

/-- The body of the loop of `ac_session_run`. -/
def turn (t : Thread ε) (r : Replies) : Option (Thread ε) :=
  match t.networkRead r with
  | (t, none) => some t
  | (t, some (.length length)) =>
    some (if length < 0 then if length = errorShutdown ∨ length = errorClose then t.teardown else t else t)
  | (t, some (.text text)) => t.handleText code r.answers text

/-- `ac_session_run`, up to its loop; `setup` is the result of `ac_dtls_setup`. -/
def start (enabledtls setup : Bool) : Thread ε :=
  if enabledtls then
    if setup then (t.changeState .dtlsConnect).arm .control dtlsInterval .teardown else t.teardown
  else (t.changeState .join).arm .control joinInterval .teardown

inductive Event (ε : Type)
  | start (enabledtls setup : Bool)
  | turn (r : Replies)
  /-- The loop is left: `ac_dfa_state_teardown`. -/
  | leave
  /-- `ac_session_close`. -/
  | close
  /-- `ac_session_send_action`. -/
  | sendAction (action : QueuedAction)
  | addPacket (packet : QueuedPacket ε)

def step (t : Thread ε) : Event ε → Option (Thread ε)
  | .start enabledtls setup => some (if t.life.state = .idle then t.start enabledtls setup else t)
  | .turn r => if t.life.loops then t.turn code r else some t
  | .leave => some (if t.life.state = .dtlsTeardown then t.changeState .dead else t)
  | .close => some { t with running := false }
  | .sendAction action => some { t with action := t.action ++ [action] }
  | .addPacket packet => some { t with packets := t.packets ++ [packet] }

/-- `ac_create_session`. -/
def created : Thread ε where
  life := .created
  running := true
  timers := { used := 2, pending := fun _ => none }
  idtimercontrol := 1
  idtimerkeepalivedead := 2
  request := false
  retransmitcount := 0
  action := []
  packets := []
  trace := []

end Thread

end OpenWifi.AcSession
