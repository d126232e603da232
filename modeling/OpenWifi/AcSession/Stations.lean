import OpenWifi.Ieee80211.Aid

/-!
# WLANs and stations of an access controller session

The tables of `ac_wlans.c`: the WLANs of a session, each with its list of stations and its association identifiers, and
the station records, a finite map from addresses.
-/

namespace OpenWifi.AcSession

open Ieee80211

abbrev MacAddress := BitVec 48

/-- `CAPWAP_ADD_WLAN_MACMODE_LOCAL` and `_SPLIT`, and the values the backend may set besides. -/
inductive MacMode
  | localMac
  | splitMac
  | other (code : UInt8)
  deriving DecidableEq

/-- `CAPWAP_ADD_WLAN_AUTHTYPE_OPEN` and `_WEP`, and the values the backend may set besides. -/
inductive AuthMode
  | openSystem
  | wep
  | other (code : UInt8)
  deriving DecidableEq

abbrev WlanRef := ℕ × MacAddress

/-- `struct ac_wlan`, with the radio of its device. -/
structure Wlan where
  radioid : ℕ
  address : MacAddress
  wlanid : ℕ
  aidbitfield : List (BitVec 32)
  stations : List MacAddress
  capability : UInt16
  authmode : AuthMode
  macmode : MacMode
  ssid : List UInt8
  deriving DecidableEq

def Wlan.ref (wlan : Wlan) : WlanRef := (wlan.radioid, wlan.address)

structure Flags where
  enabled : Bool := false
  authenticated : Bool := false
  associate : Bool := false
  authorized : Bool := false
  deriving DecidableEq

/-- `struct ac_station`; `idtimeout` says whether its timer is set. -/
structure Station where
  address : MacAddress
  flags : Flags := {}
  wlan : Option WlanRef := none
  idtimeout : Bool := false
  capability : UInt16 := 0
  listeninterval : UInt16 := 0
  aid : ℕ := 0
  supportedrates : List UInt8 := []
  authalgorithm : UInt16 := 0
  deriving DecidableEq

def Wlan.release (wlan : Wlan) (station : Station) : Wlan :=
  { wlan with
    aidbitfield :=
      if station.aid ≠ 0 ∧ wlan.macmode = .splitMac then aidFree wlan.aidbitfield station.aid
      else wlan.aidbitfield
    stations := wlan.stations.erase station.address }

def Wlan.enter (wlan : Wlan) (address : MacAddress) : Wlan :=
  { wlan with stations := wlan.stations ++ [address] }

structure IeItems where
  ssid : Option (List UInt8)
  supportedRates : Option (List UInt8)
  extendedSupportedRates : Option (List UInt8)
  deriving DecidableEq

inductive MgmtBody
  | authentication (algorithm transactionseqnumber statuscode : UInt16)
  | associationRequest (capability listeninterval : UInt16)
  | associationResponse (capability statuscode aid : UInt16)
  | deauthentication
  | other
  deriving DecidableEq

/-- A management frame; `ies` is `none` when its information elements are malformed. -/
structure Mgmt where
  da : MacAddress
  sa : MacAddress
  bssid : MacAddress
  body : MgmtBody
  ies : Option IeItems
  deriving DecidableEq

/-- `struct ac_notify_addwlan_t`. -/
structure AddWlan where
  radioid : ℕ
  wlanid : ℕ
  capability : UInt16
  authmode : AuthMode
  macmode : MacMode
  ssid : List UInt8
  deriving DecidableEq

/-- `struct ac_notify_station_configuration_ieee8011_add_station`. -/
structure AddStation where
  radioid : ℕ
  address : MacAddress
  wlanid : ℕ
  associationid : ℕ
  capabilities : UInt16
  supportedrates : List UInt8
  deriving DecidableEq

/-- `struct ac_notify_station_configuration_ieee8011_delete_station`. -/
structure DeleteStation where
  radioid : ℕ
  address : MacAddress
  deriving DecidableEq

inductive Action
  | close
  | resetWtp (vendor : UInt32) (name : List UInt8)
  | addWlan (notify : AddWlan)
  | recvKeepalive
  | recvIeee80211MgmtPacket (radioid : ℕ) (mgmt : Mgmt)
  | addStation (notify : AddStation)
  | deleteStation (notify : DeleteStation)
  | stationRoaming (address : MacAddress)
  deriving DecidableEq

inductive StatusCode
  | success
  | unspecifiedFailure
  | notSupportedAuthenticationAlgorithm
  | unknownAuthenticationTransaction
  | apUnableToHandleNewSta
  deriving DecidableEq

/-- The values of `ieee80211.h`. -/
def StatusCode.code : StatusCode → UInt16
  | success => 0
  | unspecifiedFailure => 1
  | notSupportedAuthenticationAlgorithm => 13
  | unknownAuthenticationTransaction => 14
  | apUnableToHandleNewSta => 17

/-- What happens to stations: a record is made or made anew, frames are sent, and an action that adds the station is
queued. -/
inductive Output
  | created (address : MacAddress)
  | authenticationResponse (address : MacAddress) (algorithm transactionseqnumber : UInt16)
      (statuscode : StatusCode)
  | associationResponse (address : MacAddress) (capability : UInt16) (statuscode : StatusCode) (aid : ℕ)
  | deauthentication (address : MacAddress)
  | addStation (address : MacAddress) (macmode : MacMode)
  deriving DecidableEq

/-- What the functions of `ac_wlans.c` work on.  `history`, what has been done, is not in the source. -/
structure Wlans where
  wlans : List Wlan
  stations : MacAddress → Option Station
  action : List Action
  history : List Output

namespace Wlans

variable (w : Wlans)

/-- `ac_session_send_action` to the session itself. -/
def sendAction (action : Action) : Wlans := { w with action := w.action ++ [action] }

def emit (output : Output) : Wlans := { w with history := w.history ++ [output] }

/-- `ac_wlans_get_bssid`. -/
def getBssid (radioid : ℕ) (bssid : MacAddress) : Option Wlan :=
  w.wlans.find? fun wlan => wlan.ref = (radioid, bssid)

/-- `ac_wlans_get_bssid_with_wlanid`. -/
def getBssidWithWlanid (radioid wlanid : ℕ) : Option Wlan :=
  w.wlans.find? fun wlan => wlan.radioid = radioid ∧ wlan.wlanid = wlanid

variable (station : Station)

def wlanOf : Option Wlan :=
  station.wlan.bind fun ref => w.getBssid ref.1 ref.2

def updateWlan (ref : WlanRef) (f : Wlan → Wlan) : Wlans :=
  { w with wlans := w.wlans.map fun wlan => if wlan.ref = ref then f wlan else wlan }

/-- `ac_wlans_create_bssid`. -/
def createBssid (bssid : MacAddress) (addwlan : AddWlan) : Wlan where
  radioid := addwlan.radioid
  address := bssid
  wlanid := addwlan.wlanid
  aidbitfield := noAids
  stations := []
  capability := addwlan.capability
  authmode := addwlan.authmode
  macmode := addwlan.macmode
  ssid := addwlan.ssid

/-- `ac_wlans_assign_bssid`; a WLAN that is there already is not added. -/
def assignBssid (wlan : Wlan) : Wlans :=
  if (w.getBssid wlan.radioid wlan.address).isSome then w else { w with wlans := w.wlans ++ [wlan] }

/-! ## Stations -/

def setStation : Wlans :=
  { w with stations := Function.update w.stations station.address (some station) }

variable (address : MacAddress)

def modifyStation (f : Station → Station) : Wlans :=
  { w with stations := Function.update w.stations address ((w.stations address).map f) }

/-- `ac_stations_reset_station`: the station leaves its WLAN and enters another one or none. -/
def resetStation (wlan : Option WlanRef) : Wlans :=
  let w := match station.wlan with
    | some ref => w.updateWlan ref fun wlan => wlan.release station
    | none => w
  let w := match wlan with
    | some ref => w.updateWlan ref fun wlan => wlan.enter station.address
    | none => w
  w.setStation { station with
    aid := if station.wlan.isSome then 0 else station.aid
    idtimeout := false
    flags := {}
    wlan := wlan }

/-- `ac_stations_destroy_station`, without the table that is shared by the sessions. -/
def destroyStation : Wlans :=
  match w.stations address with
  | none => w
  | some station =>
    let w := w.resetStation station none
    { w with stations := Function.update w.stations address none }

variable (radioid : ℕ)

/-- `ac_wlans_delete_bssid`: the stations are destroyed from the head of the list on. -/
def deleteBssid (bssid : MacAddress) : Wlans :=
  match w.getBssid radioid bssid with
  | none => w
  | some wlan =>
    let w := wlan.stations.foldl destroyStation w
    { w with wlans := w.wlans.eraseP fun wlan => wlan.ref = (radioid, bssid) }

/-- `ac_stations_get_station`; the radio `0` is `RADIOID_ANY`. -/
def getStation (bssid : Option MacAddress) (address : MacAddress) : Option Station :=
  (w.stations address).filter fun station =>
    station.flags.enabled ∧ (radioid = 0 ∨ station.wlan.map Prod.fst = some radioid) ∧
      (bssid = none ∨ station.wlan.map Prod.snd = bssid)

/-- `ac_stations_create_station`, without the shared table; `none` when the WLAN is not there. -/
def createStation (bssid address : MacAddress) : Option Wlans :=
  match w.getBssid radioid bssid with
  | none => none
  | some wlan =>
    let station := (w.stations address).getD { address := address }
    let w := (w.setStation station).resetStation station (some wlan.ref)
    some ((w.modifyStation address fun station =>
      { station with flags := { station.flags with enabled := true } }).emit (.created address))

/-- `ac_stations_authorize_station`. -/
def authorizeStation : Wlans :=
  match w.stations address with
  | none => w
  | some station =>
    if station.flags.authenticated ∧ station.flags.associate ∧ ¬ station.flags.authorized then
      match w.wlanOf station with
      | none => w
      | some wlan =>
        (w.emit (.addStation address wlan.macmode)).sendAction (.addStation {
          radioid := wlan.radioid
          address := address
          wlanid := wlan.wlanid
          associationid := station.aid
          capabilities := station.capability
          supportedrates := station.supportedrates })
    else w

def deauthenticated (flags : Flags) : Flags := { flags with authenticated := false, associate := false }

/-- `ac_stations_deauthorize_station`. -/
def deauthorizeStation : Wlans :=
  match w.stations address with
  | none => w
  | some station =>
    if station.flags.authorized then
      (w.modifyStation address fun station =>
        { station with flags := { deauthenticated station.flags with authorized := false } }).sendAction
          (.deleteStation { radioid := (station.wlan.map Prod.fst).getD 0, address := address })
    else if station.flags.authenticated then
      (w.modifyStation address fun station =>
        { station with flags := deauthenticated station.flags }).emit (.deauthentication address)
    else w

/-- `ac_stations_delete_station`. -/
def deleteStation : Wlans :=
  (w.deauthorizeStation address).destroyStation address

/-- `ac_stations_timeout`: the timer of the station has expired. -/
def stationTimeout : Wlans :=
  match w.stations address with
  | none => w
  | some station => if station.idtimeout then w.deleteStation address else w

end Wlans

end OpenWifi.AcSession
