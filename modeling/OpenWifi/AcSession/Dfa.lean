import OpenWifi.AcSession.Management
import OpenWifi.CapwapProtocol.Reassembly
import OpenWifi.Lib.Steps

/-!
# The thread of a session

The loop of `ac_session.c` once a session runs: it executes queued actions while no request is outstanding, handles
control messages and timers (`ac_dfa_run.c`, `ac_dfa_reset.c`), and leaves when the session is torn down.
-/

namespace OpenWifi.AcSession

open CapwapProtocol

/-- The types of `capwap_protocol.h`. -/
inductive MessageType
  | discoveryRequest
  | discoveryResponse
  | joinRequest
  | joinResponse
  | configurationStatusRequest
  | configurationStatusResponse
  | configurationUpdateRequest
  | configurationUpdateResponse
  | wtpEventRequest
  | wtpEventResponse
  | changeStateEventRequest
  | changeStateEventResponse
  | echoRequest
  | echoResponse
  | imageDataRequest
  | imageDataResponse
  | resetRequest
  | resetResponse
  | primaryDiscoveryRequest
  | primaryDiscoveryResponse
  | dataTransferRequest
  | dataTransferResponse
  | clearConfigurationRequest
  | clearConfigurationResponse
  | stationConfigurationRequest
  | stationConfigurationResponse
  | wlanConfigurationRequest
  | wlanConfigurationResponse
  deriving DecidableEq

/-- `capwap_is_request_type`. -/
def MessageType.isRequest : MessageType → Bool
  | discoveryRequest | joinRequest | configurationStatusRequest | configurationUpdateRequest
  | wtpEventRequest | changeStateEventRequest | echoRequest | imageDataRequest | resetRequest
  | primaryDiscoveryRequest | dataTransferRequest | clearConfigurationRequest
  | stationConfigurationRequest | wlanConfigurationRequest => true
  | _ => false

inductive DfaState
  | dataCheckToRun
  | run
  | reset
  | dtlsTeardown
  deriving DecidableEq

inductive Timeout
  | retransmition
  | teardown
  deriving DecidableEq

structure Timer where
  durate : ℕ
  callback : Timeout
  deriving DecidableEq

/-- `AC_RETRANSMIT_INTERVAL`. -/
def retransmitInterval : ℕ := 3000

/-- `AC_MAX_RETRANSMIT`. -/
def maxRetransmit : ℕ := 5

/-- `AC_MAX_ECHO_INTERVAL`. -/
def maxEchoInterval : ℕ := 256000

/-- `AC_MAX_DATA_KEEPALIVE_INTERVAL`. -/
def maxDataKeepaliveInterval : ℕ := 256000

inductive RequestElement
  | addWlan (element : AddWlan)
  | addStation (element : AddStation)
  | deleteStation (element : DeleteStation)
  | imageIdentifier (vendor : UInt32) (name : List UInt8)
  deriving DecidableEq

structure Request where
  type : MessageType
  seq : UInt8
  element : RequestElement
  packets : List FragmentPacketItem

/-- `struct capwap_80211_assignbssid_element`. -/
structure AssignBssid where
  radioid : ℕ
  wlanid : ℕ
  bssid : MacAddress
  deriving DecidableEq

/-- A received control message that has passed parsing and validation.  `resultcode` says whether its
result code is one of success, `ieee80211` whether it is for the IEEE 802.11 binding. -/
structure ControlPacket where
  type : MessageType
  seq : UInt8
  ieee80211 : Bool
  binding : Bool
  resultcode : Bool
  assignbssid : Option AssignBssid
  deriving DecidableEq

/-- How the calls of a turn end: the fragments that are written, what is sent, and whether the backend and the kernel
module agree. -/
structure Env where
  fragments : List FragmentPacketItem
  written : Written fragments
  sendto : Bool
  backend : Bool
  kmod : Bool
  answered : Bool

namespace Wlans

variable (w : Wlans)

/-- `execute_ieee80211_wlan_configuration_addwlan`. -/
def executeAddWlan (packet : ControlPacket) (addwlan : AddWlan) (kmod : Bool) : Wlans :=
  match packet.assignbssid with
  | none => w
  | some assign =>
    if assign.radioid = addwlan.radioid ∧ assign.wlanid = addwlan.wlanid ∧ kmod then
      w.assignBssid (createBssid assign.bssid addwlan)
    else w

/-- `execute_ieee80211_station_configuration_response_addstation`. -/
def executeAddStation (packet : ControlPacket) (element : AddStation) : Wlans :=
  if packet.ieee80211 then
    match w.getBssidWithWlanid element.radioid element.wlanid with
    | none => w
    | some wlan =>
      match w.getStation element.radioid (some wlan.address) element.address with
      | none => w
      | some _ =>
        if packet.resultcode then
          w.modifyStation element.address fun station =>
            { station with flags := { station.flags with authorized := true }, idtimeout := false }
        else w.deleteStation element.address
  else w

/-- `execute_ieee80211_station_configuration_response_deletestation`. -/
def executeDeleteStation (element : DeleteStation) : Wlans :=
  match w.getStation element.radioid none element.address with
  | none => w
  | some _ => w.deleteStation element.address

/-- The roaming action of `ac_session_action_execute`. -/
def stationRoaming (address : MacAddress) : Wlans :=
  match w.getStation 0 none address with
  | none => w
  | some _ => w.deleteStation address

end Wlans

/-- `struct ac_session_t`, as far as the loop reads it. -/
structure Session extends Wlans where
  state : DfaState
  requestfragmentpacket : Option Request
  fragmentid : UInt16
  localseqnumber : UInt8
  remotetype : Option MessageType
  remoteseqnumber : UInt8
  retransmitcount : ℕ
  timercontrol : Option Timer
  timerkeepalivedead : Option Timer

namespace Session

variable (s : Session)

/-- `ac_session_teardown`. -/
def teardown : Session :=
  { s with state := .dtlsTeardown, timercontrol := none, timerkeepalivedead := none }

/-- `ac_free_reference_last_request`. -/
def freeReferenceLastRequest : Session := { s with requestfragmentpacket := none }

def setEchoTimer : Session :=
  { s with timercontrol := some ⟨maxEchoInterval, .teardown⟩ }

def setRetransmitTimer : Session :=
  { s with timercontrol := some ⟨retransmitInterval, .retransmition⟩ }

def withWlans (f : Wlans → Wlans) : Session := { s with toWlans := f s.toWlans }

/-! ## Actions -/

/-- `IS_VALID_RADIOID`. -/
def isValidRadioid (radioid : ℕ) : Bool := 1 ≤ radioid ∧ radioid ≤ 31

/-- `IS_VALID_WLANID`. -/
def isValidWlanid (wlanid : ℕ) : Bool := 1 ≤ wlanid ∧ wlanid ≤ 16

/-- The end of the functions that send a request: its packets are kept and sent.  A request that
cannot be sent, or that is not `accepted` by the kernel module, ends the session. -/
def sendRequest (type : MessageType) (element : RequestElement) (accepted : Bool) (env : Env) : Session :=
  let packets := getFragmentPackets env.fragments s.fragmentid.toNat
  let s := { s with
    requestfragmentpacket := some ⟨type, s.localseqnumber, element, packets⟩
    fragmentid := if 1 < packets.length then s.fragmentid + 1 else s.fragmentid }
  if env.sendto ∧ accepted then ({ s with retransmitcount := 0 }).setRetransmitTimer
  else s.freeReferenceLastRequest.teardown

/-- `ac_session_action_resetwtp`. -/
def actionResetWtp (vendor : UInt32) (name : List UInt8) (env : Env) : Session :=
  let s := s.sendRequest .resetRequest (.imageIdentifier vendor name) true env
  if env.sendto then { s with state := .reset } else s

/-- `ac_session_action_addwlan`. -/
def actionAddWlan (notify : AddWlan) (env : Env) : Session :=
  if !isValidRadioid notify.radioid || !isValidWlanid notify.wlanid then s
  else if (s.getBssidWithWlanid notify.radioid notify.wlanid).isSome then s
  else s.sendRequest .wlanConfigurationRequest (.addWlan notify) true env

/-- `ac_session_action_station_configuration_ieee8011_add_station`. -/
def actionAddStation (notify : AddStation) (env : Env) : Session :=
  if !isValidRadioid notify.radioid || !isValidWlanid notify.wlanid then s
  else if env.backend ∧ (s.getBssidWithWlanid notify.radioid notify.wlanid).isSome then
    s.sendRequest .stationConfigurationRequest (.addStation notify) env.kmod env
  else s

/-- `ac_session_action_station_configuration_ieee8011_delete_station`. -/
def actionDeleteStation (notify : DeleteStation) (env : Env) : Session :=
  if !isValidRadioid notify.radioid then s
  else s.sendRequest .stationConfigurationRequest (.deleteStation notify) true env

/-- The keep-alive of `ac_session_action_execute`. -/
def actionRecvKeepalive (env : Env) : Session :=
  let s := { s with timerkeepalivedead := some ⟨maxDataKeepaliveInterval, .teardown⟩ }
  if s.state = .dataCheckToRun then
    if env.backend then ({ s with state := .run }).setEchoTimer else s.teardown
  else s

/-- `ac_session_action_execute`. -/
def actionExecute (env : Env) : Action → Session
  | .close => s.teardown
  | .resetWtp vendor name => s.actionResetWtp vendor name env
  | .addWlan notify => s.actionAddWlan notify env
  | .recvKeepalive => s.actionRecvKeepalive env
  | .recvIeee80211MgmtPacket radioid mgmt => s.withWlans fun w => w.ieee80211Packet radioid mgmt env.answered
  | .addStation notify => s.actionAddStation notify env
  | .deleteStation notify => s.actionDeleteStation notify env
  | .stationRoaming address => s.withWlans fun w => w.stationRoaming address

/-! ## Control messages -/

/-- What the outstanding request is for, read again from its packets; `none` when they do not make a message. -/
def rebuiltRequest : Option RequestElement :=
  s.requestfragmentpacket.bind fun request =>
    (createFromRequestFragmentPacket request.packets).map fun _ => request.element

variable (packet : ControlPacket) (env : Env)

/-- `receive_ieee80211_wlan_configuration_response`. -/
def receiveWlanConfigurationResponse : Session :=
  let s := s.withWlans fun w =>
    match packet.resultcode, s.rebuiltRequest with
    | true, some (.addWlan addwlan) => w.executeAddWlan packet addwlan env.kmod
    | _, _ => w
  s.freeReferenceLastRequest

/-- `receive_ieee80211_station_configuration_response`; `none` when the rebuilt request is a null pointer. -/
def receiveStationConfigurationResponse : Option Session :=
  s.rebuiltRequest.map fun element =>
    let s := s.withWlans fun w =>
      match element with
      | .addStation element => w.executeAddStation packet element
      | .deleteStation element => w.executeDeleteStation element
      | _ => w
    s.freeReferenceLastRequest

/-- `receive_echo_request`, when the backend knows the session. -/
def receiveEchoRequest : Session :=
  { s with remotetype := some packet.type, remoteseqnumber := packet.seq }

/-- The `switch` of `ac_dfa_state_run`. -/
def handleMessage : Option Session :=
  match packet.type with
  | .configurationUpdateResponse | .changeStateEventRequest | .clearConfigurationResponse
  | .wtpEventRequest | .dataTransferRequest | .dataTransferResponse => some s.setEchoTimer
  | .echoRequest => if env.backend then some (s.receiveEchoRequest packet).setEchoTimer else some s.teardown
  | .stationConfigurationResponse => (s.receiveStationConfigurationResponse packet).map setEchoTimer
  | .wlanConfigurationResponse => some (s.receiveWlanConfigurationResponse packet env).setEchoTimer
  | _ => some s

/-- `ac_dfa_state_run`. -/
def dfaStateRun : Option Session :=
  if packet.type.isRequest then s.handleMessage packet env
  else if s.localseqnumber = packet.seq then
    ({ s with localseqnumber := s.localseqnumber + 1 }).handleMessage packet env
  else some s

/-- `ac_dfa_state_reset`. -/
def dfaStateReset : Session :=
  if packet.binding ∧ packet.type = .resetResponse ∧ s.localseqnumber = packet.seq then
    ({ s with localseqnumber := s.localseqnumber + 1 }).freeReferenceLastRequest.teardown
  else s

/-- `ac_dfa_execute`. -/
def dfaExecute : Option Session :=
  match s.state with
  | .run => s.dfaStateRun packet env
  | .reset => some (s.dfaStateReset packet)
  | .dataCheckToRun | .dtlsTeardown => some s.teardown

def isRepeated : Bool :=
  packet.type.isRequest ∧ s.remotetype = some packet.type ∧ s.remoteseqnumber = packet.seq

/-- `ac_dfa_retransmition_timeout`. -/
def retransmitionTimeout : Session :=
  match s.requestfragmentpacket with
  | none => s.teardown
  | some _ =>
    let s := { s with retransmitcount := s.retransmitcount + 1 }
    if maxRetransmit ≤ s.retransmitcount then s.freeReferenceLastRequest.teardown
    else s.setRetransmitTimer

def callTimer : Timeout → Session
  | .retransmition => s.retransmitionTimeout
  | .teardown => s.teardown

inductive Event
  | sendAction (action : Action)
  | execute (env : Env)
  | receive (packet : ControlPacket) (env : Env)
  | controlTimeout
  | keepaliveTimeout
  | stationTimeout (address : MacAddress)
  | deleteBssid (radioid : ℕ) (bssid : MacAddress)

/-- `ac_network_read` comes to the packets and the timers. -/
def reads : Bool :=
  s.state ≠ .dtlsTeardown ∧ (s.requestfragmentpacket.isSome ∨ s.action = [])

/-- One turn of the loop; an event out of time changes nothing.  `none` when a null pointer is read. -/
def step : Event → Option Session
  | .sendAction action => some (s.withWlans fun w => w.sendAction action)
  | .execute env =>
    match s.requestfragmentpacket, s.action with
    | none, action :: rest =>
      if s.state = .dtlsTeardown then some s
      else some ((s.withWlans fun w => { w with action := rest }).actionExecute env action)
    | _, _ => some s
  | .receive packet env => if !s.reads || s.isRepeated packet then some s else s.dfaExecute packet env
  | .controlTimeout =>
    match s.timercontrol with
    | some timer => if s.reads then some (({ s with timercontrol := none }).callTimer timer.callback) else some s
    | none => some s
  | .keepaliveTimeout =>
    match s.timerkeepalivedead with
    | some timer =>
      if s.reads then some (({ s with timerkeepalivedead := none }).callTimer timer.callback)
      else some s
    | none => some s
  | .stationTimeout address => if s.reads then some (s.withWlans fun w => w.stationTimeout address) else some s
  | .deleteBssid radioid bssid => some (s.withWlans fun w => w.deleteBssid radioid bssid)

def started : Session where
  wlans := []
  stations := fun _ => none
  action := []
  history := []
  state := .run
  requestfragmentpacket := none
  fragmentid := 0
  localseqnumber := 0
  remotetype := none
  remoteseqnumber := 0
  retransmitcount := 0
  timercontrol := some ⟨maxEchoInterval, .teardown⟩
  timerkeepalivedead := some ⟨maxDataKeepaliveInterval, .teardown⟩

def oneFragment : FragmentPacketItem where
  size := 16
  buffer := [0, 16] ++ List.replicate 14 0

theorem written_oneFragment : Written [oneFragment] := ⟨_, _, rfl, by decide⟩

def agreeable : Env where
  fragments := [oneFragment]
  written := written_oneFragment
  sendto := true
  backend := true
  kmod := true
  answered := true

def guestWlan : AddWlan where
  radioid := 1
  wlanid := 1
  capability := 0
  authmode := .openSystem
  macmode := .splitMac
  ssid := [103]

def emptyMessage (type : MessageType) (seq : UInt8) : ControlPacket where
  type := type
  seq := seq
  ieee80211 := true
  binding := true
  resultcode := true
  assignbssid := none

end Session

end OpenWifi.AcSession
