import OpenWifi.AcSession.Dfa
import OpenWifi.CapwapElement.Parsing

/-!
# Which messages are taken

`capwap_check_message_type` looks at the type of a control message, and `capwap_validate_parsed_packet` at the
elements that a message of a type has to have.
-/

namespace OpenWifi.CapwapElement

namespace ElementId

/-! ## The ids of elements -/

def acdescription : ElementId := ⟨0, 1⟩
def acipv4list : ElementId := ⟨0, 2⟩
def acipv6list : ElementId := ⟨0, 3⟩
def acname : ElementId := ⟨0, 4⟩
def acnamepriority : ElementId := ⟨0, 5⟩
def actimestamp : ElementId := ⟨0, 6⟩
def addmacacl : ElementId := ⟨0, 7⟩
def addstation : ElementId := ⟨0, 8⟩
def controlipv4 : ElementId := ⟨0, 10⟩
def controlipv6 : ElementId := ⟨0, 11⟩
def timers : ElementId := ⟨0, 12⟩
def decrypterrorreportperiod : ElementId := ⟨0, 16⟩
def deletemacacl : ElementId := ⟨0, 17⟩
def deletestation : ElementId := ⟨0, 18⟩
def discoverytype : ElementId := ⟨0, 20⟩
def duplicateipv4 : ElementId := ⟨0, 21⟩
def duplicateipv6 : ElementId := ⟨0, 22⟩
def idletimeout : ElementId := ⟨0, 23⟩
def imageidentifier : ElementId := ⟨0, 25⟩
def location : ElementId := ⟨0, 28⟩
def localipv4 : ElementId := ⟨0, 30⟩
def radioadmstate : ElementId := ⟨0, 31⟩
def radiooprstate : ElementId := ⟨0, 32⟩
def resultcode : ElementId := ⟨0, 33⟩
def sessionid : ElementId := ⟨0, 35⟩
def statisticstimer : ElementId := ⟨0, 36⟩
def wtpboarddata : ElementId := ⟨0, 38⟩
def wtpdescriptor : ElementId := ⟨0, 39⟩
def wtpfallback : ElementId := ⟨0, 40⟩
def wtpframetunnelmode : ElementId := ⟨0, 41⟩
def wtpmactype : ElementId := ⟨0, 44⟩
def wtpname : ElementId := ⟨0, 45⟩
def wtpradiostat : ElementId := ⟨0, 47⟩
def wtprebootstat : ElementId := ⟨0, 48⟩
def wtpstaticipaddress : ElementId := ⟨0, 49⟩
def localipv6 : ElementId := ⟨0, 50⟩
def ecnsupport : ElementId := ⟨0, 53⟩
def addWlan80211 : ElementId := ⟨0, 1024⟩
def deleteWlan80211 : ElementId := ⟨0, 1027⟩
def station80211 : ElementId := ⟨0, 1036⟩
def updateWlan80211 : ElementId := ⟨0, 1044⟩
def wtpradioinformation80211 : ElementId := ⟨0, 1048⟩

end ElementId

variable {ε : Type*}

/-- `capwap_get_message_element` finds the element. -/
def hasElement (messages : List (MessageElement ε)) (id : ElementId) : Bool := (getMessageElement messages id).isSome

/-- `CAPWAP_RESULTCODE_OK`: success, also with a NAT that was detected. -/
def resultcodeOk (code : ℕ) : Bool := code = 0 ∨ code = 2

/-- The Result Code of the message; `code` is what `resultcode->code` reads. -/
def resultcodeOf (code : ε → ℕ) (messages : List (MessageElement ε)) : Option ℕ :=
  (getMessageElement messages .resultcode).bind fun m => m.data.head?.map code

end OpenWifi.CapwapElement

namespace OpenWifi.CapwapProtocol

/-- `GET_WBID_HEADER`. -/
def getWbid (buf : List UInt8) : ℕ := byteAt buf 2 / 2 % 32

def PacketRxmng.binding (rx : PacketRxmng) : ℕ := getWbid (rx.fragmentlist.headD [])

end OpenWifi.CapwapProtocol

namespace OpenWifi.AcSession

open CapwapProtocol CapwapElement

def MessageType.number : MessageType → ℕ
  | discoveryRequest => 1
  | discoveryResponse => 2
  | joinRequest => 3
  | joinResponse => 4
  | configurationStatusRequest => 5
  | configurationStatusResponse => 6
  | configurationUpdateRequest => 7
  | configurationUpdateResponse => 8
  | wtpEventRequest => 9
  | wtpEventResponse => 10
  | changeStateEventRequest => 11
  | changeStateEventResponse => 12
  | echoRequest => 13
  | echoResponse => 14
  | imageDataRequest => 15
  | imageDataResponse => 16
  | resetRequest => 17
  | resetResponse => 18
  | primaryDiscoveryRequest => 19
  | primaryDiscoveryResponse => 20
  | dataTransferRequest => 21
  | dataTransferResponse => 22
  | clearConfigurationRequest => 23
  | clearConfigurationResponse => 24
  | stationConfigurationRequest => 25
  | stationConfigurationResponse => 26
  | wlanConfigurationRequest => 3398913
  | wlanConfigurationResponse => 3398914

def MessageType.all : List MessageType :=
  [discoveryRequest, discoveryResponse, joinRequest, joinResponse, configurationStatusRequest,
    configurationStatusResponse, configurationUpdateRequest, configurationUpdateResponse, wtpEventRequest,
    wtpEventResponse, changeStateEventRequest, changeStateEventResponse, echoRequest, echoResponse,
    imageDataRequest, imageDataResponse, resetRequest, resetResponse, primaryDiscoveryRequest,
    primaryDiscoveryResponse, dataTransferRequest, dataTransferResponse, clearConfigurationRequest,
    clearConfigurationResponse, stationConfigurationRequest, stationConfigurationResponse,
    wlanConfigurationRequest, wlanConfigurationResponse]

def MessageType.ofNumber (number : ℕ) : Option MessageType := all.find? (·.number = number)

/-- The answers of `capwap_check_message_type`. -/
inductive TypeCheck
  | validMessageType | invalidMessageType | invalidRequestMessageType
  deriving DecidableEq

/-- `capwap_check_message_type`. -/
def checkMessageType (rx : PacketRxmng) : TypeCheck :=
  match rx.fragmentlist with
  | [] => .invalidMessageType
  | first :: _ =>
    if (first.length + 65536 - getHlen first * 4) % 65536 < controlMessageSize then .invalidMessageType
    else if 1 ≤ rx.ctrlmsg.type ∧ rx.ctrlmsg.type ≤ 26 then .validMessageType
    else if rx.binding = 1 ∧ 3398913 ≤ rx.ctrlmsg.type ∧ rx.ctrlmsg.type ≤ 3398914 then .validMessageType
    else if rx.ctrlmsg.type % 2 ≠ 0 then .invalidRequestMessageType
    else .invalidMessageType

variable {ε : Type*}

/-- `capwap_validate_parsed_packet` returns 0.  With the 802.11 binding some requests have to describe a radio,
and some responses may have nothing but a Result Code that is an error. -/
def validateParsedPacket (code : ε → ℕ) (binding : ℕ) (type : MessageType)
    (messages : List (MessageElement ε)) : Bool :=
  let has := hasElement messages
  let radio := binding ≠ 1 ∨ has .wtpradioinformation80211
  let failed := (resultcodeOf code messages).any (!resultcodeOk ·)
  match type with
  | .discoveryRequest | .primaryDiscoveryRequest =>
    has .discoverytype && has .wtpboarddata && has .wtpdescriptor && has .wtpframetunnelmode && has .wtpmactype &&
      radio
  | .discoveryResponse | .primaryDiscoveryResponse =>
    has .acdescription && has .acname && (has .controlipv4 || has .controlipv6) || failed
  | .joinRequest =>
    has .location && has .wtpboarddata && has .wtpdescriptor && has .wtpname && has .sessionid &&
      has .wtpframetunnelmode && has .wtpmactype && has .ecnsupport && (has .localipv4 || has .localipv6) && radio
  | .joinResponse =>
    has .resultcode && has .acdescription && has .acname && has .ecnsupport &&
      (has .controlipv4 || has .controlipv6) && (has .localipv4 || has .localipv6) || failed
  | .configurationStatusRequest =>
    has .acname && has .radioadmstate && has .statisticstimer && has .wtprebootstat && radio
  | .configurationStatusResponse =>
    has .timers && has .decrypterrorreportperiod && has .idletimeout && has .wtpfallback &&
      (has .acipv4list || has .acipv6list) || failed
  | .configurationUpdateRequest =>
    has .acnamepriority || has .actimestamp || has .addmacacl || has .timers || has .decrypterrorreportperiod ||
      has .deletemacacl || has .idletimeout || has .location || has .radioadmstate || has .statisticstimer ||
      has .wtpfallback || has .wtpname || has .wtpstaticipaddress || has .imageidentifier || has vendorpayload
  | .wtpEventRequest =>
    has .decrypterrorreportperiod || has .duplicateipv4 || has .duplicateipv6 || has .wtpradiostat ||
      has .wtprebootstat || has .deletestation || has vendorpayload
  | .changeStateEventRequest => has .radiooprstate && has .resultcode
  | .resetRequest => has .imageidentifier
  | .dataTransferRequest => false
  | .stationConfigurationRequest => if has .addstation then binding ≠ 1 ∨ has .station80211 else has .deletestation
  | .wlanConfigurationRequest => has .addWlan80211 || has .updateWlan80211 || has .deleteWlan80211
  | .imageDataResponse | .dataTransferResponse | .clearConfigurationResponse | .stationConfigurationResponse
  | .wlanConfigurationResponse => has .resultcode
  | .configurationUpdateResponse | .wtpEventResponse | .changeStateEventResponse | .echoRequest | .echoResponse
  | .imageDataRequest | .resetResponse | .clearConfigurationRequest => true

end OpenWifi.AcSession
