import OpenWifi.AcSession.Validation

/-!
# The life of a session

`ac_session_run` from the start of a session to its end: the state, the events of the backend that wait for something to
happen, and which state the handlers of `ac_dfa_execute` go to.
-/

namespace OpenWifi.AcSession

open CapwapProtocol CapwapElement

/-- The states of `capwap_dfa.h`. -/
inductive SessionState
  | start | idle | discovery | sulking | dtlsConnect | dtlsTeardown | join | postjoin | imageData | configure
  | reset | dataCheck | dataCheckToRun | run | dead
  deriving DecidableEq

def SessionState.number : SessionState → ℕ
  | start => 0
  | idle => 1
  | discovery => 2
  | sulking => 3
  | dtlsConnect => 4
  | dtlsTeardown => 5
  | join => 6
  | postjoin => 7
  | imageData => 8
  | configure => 9
  | reset => 10
  | dataCheck => 11
  | dataCheckToRun => 12
  | run => 13
  | dead => 14

/-! ## Events of the backend -/

/-- `NOTIFY_ACTION_CHANGE_STATE`. -/
def notifyActionChangeState : ℕ := 0

/-- `NOTIFY_ACTION_RECEIVE_REQUEST_CONTROLMESSAGE`. -/
def notifyActionReceiveRequestControlmessage : ℕ := 1

/-- `NOTIFY_ACTION_RECEIVE_RESPONSE_CONTROLMESSAGE`, the same number. -/
def notifyActionReceiveResponseControlmessage : ℕ := 1

/-- `struct ac_session_notify_event_t`; `value` is the union of `session_state` and `ctrlmsg_type`. -/
structure NotifyEvent where
  idevent : String
  action : ℕ
  value : ℕ
  deriving DecidableEq

/-- `SOAP_EVENT_STATUS_GENERIC_ERROR`, `SOAP_EVENT_STATUS_CANCEL` and `SOAP_EVENT_STATUS_COMPLETE`. -/
inductive EventStatus
  | genericError | cancel | complete
  deriving DecidableEq

/-- Why the backend is told of an event: a message with its Result Code, a change of the state, or the end of the
session. -/
inductive Cause
  | message (type : MessageType) (code : Option ℕ)
  | changeState (state : SessionState)
  | teardown
  deriving DecidableEq

/-- A call of `ac_soap_updatebackendevent`. -/
structure Report where
  event : NotifyEvent
  status : EventStatus
  cause : Cause
  deriving DecidableEq

/-- What `ac_session_run` keeps of a session.  `queued` and `reports` are the events and what the backend was told; the
source does not keep them. -/
structure Life where
  state : SessionState
  binding : ℕ
  localseqnumber : ℕ
  remotetype : ℕ
  remoteseqnumber : ℕ
  notifyevent : List NotifyEvent
  queued : List NotifyEvent
  reports : List Report
  deriving DecidableEq

namespace Life

def notifyFirst (p : NotifyEvent → Bool) (status : EventStatus) (cause : Cause) (s : Life) : Life :=
  match s.notifyevent.find? p with
  | none => s
  | some event =>
    { s with notifyevent := s.notifyevent.eraseP p, reports := s.reports ++ [⟨event, status, cause⟩] }

/-- `ac_dfa_change_state`. -/
def changeState (s : Life) (state : SessionState) : Life :=
  if state = s.state then s
  else
    ({ s with state := state }).notifyFirst
      (fun e => e.action = notifyActionChangeState ∧ e.value = state.number) .complete (.changeState state)

/-- `ac_session_teardown`: all events are cancelled, before the state changes. -/
def teardown (s : Life) : Life :=
  ({ s with
    notifyevent := []
    reports := s.reports ++ s.notifyevent.map (Report.mk · .cancel .teardown) }).changeState .dtlsTeardown

end Life

/-- `struct capwap_parsed_packet`, of a message that has been parsed. -/
structure Packet (ε : Type*) where
  type : MessageType
  seq : ℕ
  binding : ℕ
  messages : List (MessageElement ε)

inductive NullRead
  | element (id : ElementId)
  | request
  deriving DecidableEq

variable {ε : Type*} (packet : Packet ε)

def Packet.read (id : ElementId) : Except NullRead Unit :=
  if hasElement packet.messages id then .ok () else .error (.element id)

structure Answers where
  /-- `ac_valid_binding`. -/
  validBinding : Bool
  /-- `ac_has_sessionid`. -/
  hasSessionid : Bool
  /-- `ac_get_printable_wtpid` gives an id, which `ac_has_wtpid` does not find. -/
  freeWtpid : Bool
  /-- `ac_soap_authorizewtpsession` answers "true". -/
  authorized : Bool
  /-- `ac_json_ieee80211_parsingmessageelement` takes all 802.11 elements. -/
  radios : Bool
  response : Option Bool
  /-- `capwap_crypt_sendto_fragmentpacket`. -/
  sent : Bool
  /-- `ac_kmod_new_datasession` succeeds. -/
  datasession : Bool
  /-- `ac_soap_checkwtpsession` answers "true". -/
  validSession : Bool
  request : Bool
  station : Bool
  deriving DecidableEq

namespace Life

variable (s : Life)

def saveRemote (packet : Packet ε) : Life :=
  { s with remotetype := packet.type.number, remoteseqnumber := packet.seq }

variable (a : Answers)

/-- The checks of `ac_dfa_state_join`, up to the answer of the backend. -/
def joinAuthorize : Except NullRead Bool :=
  if !a.validBinding || packet.type ≠ .joinRequest then .ok false
  else do
    packet.read .sessionid
    if a.hasSessionid then return false
    packet.read .wtpboarddata
    return a.freeWtpid && a.authorized

/-- `ac_dfa_state_join_parsing_request`. -/
def joinParsingRequest : Except NullRead (Option Bool) := do
  packet.read .location
  packet.read .wtpboarddata
  packet.read .wtpdescriptor
  packet.read .wtpname
  packet.read .wtpframetunnelmode
  packet.read .wtpmactype
  if packet.binding = 1 && !a.radios then return none
  packet.read .ecnsupport
  return a.response

/-- `ac_dfa_state_join_create_response`: whether the code is a success. -/
def joinCreateResponse (json : Bool) : Except NullRead Bool := do
  if !json then return false
  if packet.binding = 1 then packet.read .wtpradioinformation80211
  return true

/-- The result code of `ac_dfa_state_join` is a success: it stays one when the backend does not answer. -/
def joinResult (authorized : Bool) : Except NullRead Bool := do
  if !authorized then return false
  match ← joinParsingRequest packet a with
  | none => return true
  | some json => joinCreateResponse packet json

/-- `ac_dfa_state_join`. -/
def dfaStateJoin (packet : Packet ε) (a : Answers) : Except NullRead Life := do
  let authorized ← joinAuthorize packet a
  let s := if authorized then { s with binding := packet.binding } else s
  let success ← joinResult packet a authorized
  let s := s.saveRemote packet
  return if a.sent && success then s.changeState .postjoin else s.teardown

/-! ## Configuration -/

/-- `ac_dfa_state_configure_parsing_request`. -/
def configureParsingRequest : Except NullRead (Option Bool) := do
  packet.read .radioadmstate
  packet.read .statisticstimer
  packet.read .wtprebootstat
  if packet.binding = 1 && !a.radios then return none
  return a.response

/-- `ac_dfa_state_configure_create_response`: whether the code is a success. -/
def configureCreateResponse (json : Bool) : Except NullRead Bool := do
  if !json then return false
  packet.read .radioadmstate
  return true

/-- The result of `ac_dfa_state_configure` is a success. -/
def configureResult : Except NullRead Bool := do
  match ← configureParsingRequest packet a with
  | none => return false
  | some json => configureCreateResponse packet json

/-- `ac_dfa_state_configure`. -/
def dfaStateConfigure (packet : Packet ε) (a : Answers) : Except NullRead Life := do
  let success ← configureResult packet a
  let s := s.saveRemote packet
  return if success then s.changeState .dataCheck else s.teardown

/-- `ac_dfa_state_imagedata`. -/
def dfaStateImagedata : Life := s.teardown

/-- `ac_dfa_state_postjoin`. -/
def dfaStatePostjoin (packet : Packet ε) (a : Answers) : Except NullRead Life :=
  match packet.type with
  | .configurationStatusRequest => (s.changeState .configure).dfaStateConfigure packet a
  | .imageDataRequest => .ok (s.changeState .imageData).dfaStateImagedata
  | _ => .ok s.teardown

/-- `ac_dfa_state_datacheck_parsing_request`. -/
def datacheckParsingRequest : Except NullRead (Option Bool) := do
  packet.read .radiooprstate
  packet.read .resultcode
  if packet.binding = 1 && !a.radios then return none
  return a.response

/-- `ac_dfa_state_datacheck`, which does not look at the type of the message. -/
def dfaStateDatacheck (packet : Packet ε) (a : Answers) : Except NullRead Life := do
  let response ← datacheckParsingRequest packet a
  let s := s.saveRemote packet
  return if response = some true && a.datasession then s.changeState .dataCheckToRun else s.teardown

/-- `receive_ieee80211_station_configuration_response`. -/
def receiveStationConfigurationResponse : Except NullRead Unit :=
  if !a.request then .error .request
  else if a.station then packet.read .resultcode
  else .ok ()

/-- The messages that `ac_dfa_state_run` knows. -/
def runMessage (packet : Packet ε) (a : Answers) : Except NullRead Life :=
  match packet.type with
  | .echoRequest => .ok (if a.validSession then s.saveRemote packet else s.teardown)
  | .stationConfigurationResponse => do
    receiveStationConfigurationResponse packet a
    return s
  | .wlanConfigurationResponse => do
    packet.read .resultcode
    return s
  | _ => .ok s

/-- `ac_dfa_state_run`. -/
def dfaStateRun (packet : Packet ε) (a : Answers) : Except NullRead Life :=
  if packet.type.isRequest then s.runMessage packet a
  else if s.localseqnumber = packet.seq then
    ({ s with localseqnumber := (s.localseqnumber + 1) % 256 }).runMessage packet a
  else .ok s

/-- `ac_dfa_state_reset`. -/
def dfaStateReset (packet : Packet ε) : Life :=
  if packet.binding = s.binding ∧ packet.type = .resetResponse ∧ s.localseqnumber = packet.seq then
    ({ s with localseqnumber := (s.localseqnumber + 1) % 256 }).teardown
  else s

/-- `ac_dfa_execute`. -/
def dfaExecute (packet : Packet ε) (a : Answers) : Except NullRead Life :=
  match s.state with
  | .join => s.dfaStateJoin packet a
  | .postjoin => s.dfaStatePostjoin packet a
  | .imageData => .ok s.dfaStateImagedata
  | .configure => s.dfaStateConfigure packet a
  | .reset => .ok (s.dfaStateReset packet)
  | .dataCheck => s.dfaStateDatacheck packet a
  | .run => s.dfaStateRun packet a
  | _ => .ok s.teardown

/-- The search for an event that waits for a message, in `ac_session_run`. -/
def notifyMessage (code : ε → ℕ) (packet : Packet ε) (s : Life) : Life :=
  let cause := Cause.message packet.type (resultcodeOf code packet.messages)
  if packet.type.isRequest then
    s.notifyFirst (·.action = notifyActionReceiveRequestControlmessage) .complete cause
  else
    s.notifyFirst (·.action = notifyActionReceiveResponseControlmessage)
      (if (resultcodeOf code packet.messages).all resultcodeOk then .complete else .genericError) cause

inductive Event (ε : Type*)
  /-- `ac_session_run` begins, with DTLS or without; `ac_dtls_setup` may fail. -/
  | begin (enabledtls setup : Bool)
  | handshake
  /-- The action `AC_SESSION_ACTION_NOTIFY_EVENT` is executed. -/
  | notifyEvent (event : NotifyEvent)
  /-- The action `AC_SESSION_ACTION_RESET_WTP` is executed. -/
  | resetWtp (sent : Bool)
  /-- The action `AC_SESSION_ACTION_RECV_KEEPALIVE` is executed; `running` is the answer of the backend. -/
  | recvKeepalive (running : Bool)
  | teardown
  | message (packet : Packet ε) (a : Answers)
  /-- The loop of `ac_session_run` is left: `ac_dfa_state_teardown`. -/
  | leave

/-- The session is in the loop of `ac_session_run`. -/
def loops : Bool := s.state ≠ .idle ∧ s.state ≠ .dtlsTeardown ∧ s.state ≠ .dead

/-- The last request comes again; `ac_session_run` then only sends the kept response. -/
def repeats (packet : Packet ε) : Bool :=
  packet.type.isRequest ∧ s.remotetype = packet.type.number ∧ s.remoteseqnumber = packet.seq

/-- One turn; an event for which it is not the time changes nothing.  `none` when a null pointer is read. -/
def step (code : ε → ℕ) (s : Life) : Event ε → Option Life
  | .begin enabledtls setup =>
    if s.state ≠ .idle then some s
    else if !enabledtls then some (s.changeState .join)
    else if setup then some (s.changeState .dtlsConnect)
    else some s.teardown
  | .handshake => some (if s.state = .dtlsConnect then s.changeState .join else s)
  | .notifyEvent event =>
    some (if s.loops then { s with notifyevent := s.notifyevent ++ [event], queued := s.queued ++ [event] } else s)
  | .resetWtp sent => some (if s.loops then if sent then s.changeState .reset else s.teardown else s)
  | .recvKeepalive running =>
    some (if s.state = .dataCheckToRun then if running then s.changeState .run else s.teardown else s)
  | .teardown => some (if s.loops then s.teardown else s)
  | .message packet a =>
    if s.loops && !s.repeats packet && validateParsedPacket code packet.binding packet.type packet.messages then
      ((s.notifyMessage code packet).dfaExecute packet a).toOption
    else some s
  | .leave => some (if s.state = .dtlsTeardown then s.changeState .dead else s)

/-- `ac_create_session`. -/
def created : Life where
  state := .idle
  binding := 0
  localseqnumber := 0
  remotetype := 0
  remoteseqnumber := 0
  notifyevent := []
  queued := []
  reports := []

end Life

end OpenWifi.AcSession
