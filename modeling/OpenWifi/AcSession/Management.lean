import OpenWifi.AcSession.Stations

/-!
# Management frames

The handlers of `ac_ieee80211_data.c`.  The argument `answered` says whether the frame with which a handler answers
could be built and was sent; a station that cannot be answered is deleted.
-/

namespace OpenWifi.AcSession

open Ieee80211

/-- `IEEE80211_SUPPORTEDRATE_MAX_COUNT`. -/
def supportedrateMaxCount : ℕ := 16

/-- `IEEE80211_AID_FIELD`. -/
def aidField : ℕ := 0xC000

def IeItems.rates (ies : IeItems) : Option (List UInt8) :=
  ies.supportedRates.bind fun rates =>
    let rates := rates ++ ies.extendedSupportedRates.getD []
    if rates.length ≤ supportedrateMaxCount then some rates else none

/-- `ieee80211_is_valid_ssid`, without a list of SSIDs. -/
def isValidSsid (ssid : List UInt8) (iessid : Option (List UInt8)) : Bool := iessid = some ssid

def authenticationStatus (wlan : Wlan) (algorithm transactionseqnumber : UInt16) : StatusCode :=
  if algorithm = 0 ∧ wlan.authmode = .openSystem then
    if transactionseqnumber = 1 then .success else .unknownAuthenticationTransaction
  else .notSupportedAuthenticationAlgorithm

namespace Wlans

variable (w : Wlans) (radioid : ℕ)

def stationAndWlan (bssid address : MacAddress) : Option (Station × Wlan) :=
  (w.getStation radioid (some bssid) address).bind fun station => (w.wlanOf station).map fun wlan => (station, wlan)

/-- The station asks for authentication and `wlan` answers in its place. -/
def answerAuthentication (wlan : Wlan) (address : MacAddress)
    (algorithm transactionseqnumber : UInt16) (answered : Bool) : Wlans :=
  let status := authenticationStatus wlan algorithm transactionseqnumber
  let w := if status = .success then
      w.modifyStation address fun station => { station with authalgorithm := algorithm }
    else w
  if answered then
    -- the flag is set whatever the status is
    (w.emit (.authenticationResponse address algorithm (transactionseqnumber + 1) status)).modifyStation
      address fun station => { station with flags := { station.flags with authenticated := true } }
  else w.deleteStation address

variable (mgmt : Mgmt)

/-- `ac_ieee80211_mgmt_authentication_packet`. -/
def mgmtAuthenticationPacket (algorithm transactionseqnumber statuscode : UInt16) (answered : Bool) : Wlans :=
  if mgmt.bssid ≠ mgmt.sa ∧ mgmt.bssid = mgmt.da then
    match w.createStation radioid mgmt.bssid mgmt.sa, w.getBssid radioid mgmt.bssid with
    | some w, some wlan =>
      let w := w.modifyStation mgmt.sa fun station => { station with idtimeout := true }
      if wlan.macmode = .splitMac then
        w.answerAuthentication wlan mgmt.sa algorithm transactionseqnumber answered
      else w
    | _, _ => w
  else if mgmt.bssid = mgmt.sa ∧ mgmt.bssid ≠ mgmt.da then
    match w.stationAndWlan radioid mgmt.bssid mgmt.da with
    | some (_, wlan) =>
      if wlan.macmode = .localMac ∧ statuscode = StatusCode.success.code ∧ algorithm = 0 ∧ transactionseqnumber = 2 then
        w.modifyStation mgmt.da fun station =>
          { station with flags := { station.flags with authenticated := true } }
      else w
    | none => w
  else w

/-- The identifier and the status with which `wlan` answers an association request. -/
def associate (wlan : Wlan) (address : MacAddress) (ies : IeItems) : Wlans × StatusCode :=
  if isValidSsid wlan.ssid ies.ssid then
    match aidCreate wlan.aidbitfield with
    | (aidbitfield, some aid) =>
      ((w.updateWlan wlan.ref fun wlan => { wlan with aidbitfield := aidbitfield }).modifyStation
        address fun station => { station with aid := aid }, .success)
    | (_, none) => (w.modifyStation address fun station => { station with aid := 0 }, .apUnableToHandleNewSta)
  else (w, .unspecifiedFailure)

/-- The station asks for association and `wlan` answers in its place. -/
def answerAssociation (wlan : Wlan) (address : MacAddress) (ies : IeItems) (answered : Bool) : Wlans :=
  let (w, status) := w.associate wlan address ies
  if answered then
    let aid := ((w.stations address).map Station.aid).getD 0
    -- the flag is set whatever the status is
    ((w.emit (.associationResponse address wlan.capability status (aidField ||| aid))).modifyStation
      address fun station =>
        { station with flags := { station.flags with associate := true } }).authorizeStation address
  else w.deleteStation address

/-- `ac_ieee80211_mgmt_association_request_packet`. -/
def mgmtAssociationRequestPacket (ies : IeItems) (capability listeninterval : UInt16) (answered : Bool) : Wlans :=
  if mgmt.bssid ≠ mgmt.sa ∧ mgmt.bssid = mgmt.da then
    match w.stationAndWlan radioid mgmt.bssid mgmt.sa with
    | some (station, wlan) =>
      if station.flags.authenticated then
        let w := w.modifyStation mgmt.sa fun station =>
          { station with capability := capability, listeninterval := listeninterval }
        match ies.rates with
        | none => w
        | some rates =>
          let w := w.modifyStation mgmt.sa fun station => { station with supportedrates := rates }
          if wlan.macmode = .splitMac then w.answerAssociation wlan mgmt.sa ies answered else w
      else w.deleteStation mgmt.sa
    | none => w
  else w

/-- `ac_ieee80211_mgmt_association_response_packet`. -/
def mgmtAssociationResponsePacket (ies : IeItems) (capability statuscode aid : UInt16) : Wlans :=
  if mgmt.bssid = mgmt.sa ∧ mgmt.bssid ≠ mgmt.da then
    match w.stationAndWlan radioid mgmt.bssid mgmt.da with
    | some (_, wlan) =>
      if wlan.macmode = .localMac ∧ statuscode = StatusCode.success.code then
        let w := w.modifyStation mgmt.da fun station =>
          { station with
            capability := capability
            aid := aid.toNat
            flags := { station.flags with associate := true } }
        match ies.rates with
        | none => w
        | some rates =>
          (w.modifyStation mgmt.da fun station =>
            { station with supportedrates := rates }).authorizeStation mgmt.da
      else w
    | none => w
  else w

/-- `ac_ieee80211_mgmt_deauthentication_packet`. -/
def mgmtDeauthenticationPacket : Wlans :=
  let stationaddress := if mgmt.bssid ≠ mgmt.sa then mgmt.sa else mgmt.da
  match w.getStation radioid none stationaddress with
  | none => w
  | some _ =>
    (w.modifyStation stationaddress fun station =>
      { station with flags := deauthenticated station.flags }).deleteStation stationaddress

/-- `ac_ieee80211_packet`, for a management frame.  Malformed information elements stop every handler. -/
def ieee80211Packet (answered : Bool) : Wlans :=
  match mgmt.ies with
  | none => w
  | some ies =>
    match mgmt.body with
    | .authentication algorithm transactionseqnumber statuscode =>
      w.mgmtAuthenticationPacket radioid mgmt algorithm transactionseqnumber statuscode answered
    | .associationRequest capability listeninterval =>
      w.mgmtAssociationRequestPacket radioid mgmt ies capability listeninterval answered
    | .associationResponse capability statuscode aid =>
      w.mgmtAssociationResponsePacket radioid mgmt ies capability statuscode aid
    | .deauthentication => w.mgmtDeauthenticationPacket radioid mgmt
    | .other => w

end Wlans

end OpenWifi.AcSession
