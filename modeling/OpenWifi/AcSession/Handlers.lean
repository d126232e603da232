import OpenWifi.AcSession.Changes
import OpenWifi.AcSession.Turns

/-!
# The handlers as sequences of changes

Each function on the station tables makes a sequence of elementary changes, and so does every step of a session.
-/

namespace OpenWifi.AcSession

open Option Ieee80211

namespace Wlans

variable {w w' : Wlans} {ok : StatusCode → Prop} {fresh : ℕ → Prop} {a : MacAddress}

/-! ## Deleting stations -/

variable {st : Station}

theorem Lowers.of_flags {flags : Flags} (authenticated : flags.authenticated → st.flags.authenticated)
    (associate : flags.associate → st.flags.associate) : Lowers st { st with flags := flags } :=
  ⟨rfl, rfl, rfl, authenticated, associate⟩

theorem changes_sendAction (w : Wlans) (action : Action) : Changes ok fresh w (w.sendAction action) :=
  (Change.actions w _).changes

theorem changes_modifyStation (w : Wlans) (a : MacAddress) {f : Station → Station}
    (lowers : ∀ st, Lowers st (f st) := by exact fun _ => ⟨rfl, rfl, rfl, id, id⟩) :
    Changes ok fresh w (w.modifyStation a f) :=
  (Change.modify w a f lowers).changes

theorem changes_deauthorizeStation (w : Wlans) (a : MacAddress) : Changes ok fresh w (w.deauthorizeStation a) := by
  rw [deauthorizeStation]
  split
  · rfl
  · split
    · refine Changes.trans (changes_modifyStation w a ?_) (changes_sendAction _ _)
      exact fun st => .of_flags (by simp [deauthenticated]) (by simp [deauthenticated])
    · split
      · refine Changes.trans (changes_modifyStation w a ?_) (Change.deauthentication _ a).changes
        exact fun st => .of_flags (by simp [deauthenticated]) (by simp [deauthenticated])
      · rfl

theorem changes_destroyStation (h : Consistent w) (a : MacAddress) : Changes ok fresh w (w.destroyStation a) := by
  cases found : w.stations a with
  | none => simp only [destroyStation, found]; rfl
  | some st =>
    simp only [destroyStation, found]
    refine Changes.trans (Change.reset w st none (h.known found) (by simp)).changes ?_
    refine (Change.remove _ a fun st' found' => ?_).changes
    rw [stations_resetStation, if_pos (h.keyed a st found).symm] at found'
    rw [← some.inj found']
    rfl

theorem changes_deleteStation (h : Consistent w) (a : MacAddress) : Changes ok fresh w (w.deleteStation a) := by
  have first : Changes ok fresh w (w.deauthorizeStation a) := changes_deauthorizeStation w a
  exact first.trans (changes_destroyStation (h.changes first) a)

theorem stations_destroyStation (h : Consistent w) (a b : MacAddress) :
    (w.destroyStation a).stations b = if b = a then none else w.stations b := by
  cases found : w.stations a with
  | none =>
    simp only [destroyStation, found]
    split
    next same => rw [same, found]
    · rfl
  | some st =>
    simp only [destroyStation, found, Function.update_apply]
    split
    · rfl
    next other =>
      rw [stations_resetStation, if_neg]
      rwa [h.keyed a st found]

theorem changes_foldl_destroyStation (h : Consistent w) (addresses : List MacAddress) :
    Changes ok fresh w (addresses.foldl destroyStation w) ∧ ∀ b, (addresses.foldl destroyStation w).stations b =
        if b ∈ addresses then none else w.stations b := by
  induction addresses generalizing w with
  | nil => exact ⟨Changes.refl w, by simp⟩
  | cons a rest ih =>
    have first : Changes ok fresh w (w.destroyStation a) := changes_destroyStation h a
    obtain ⟨others, stations⟩ := ih (h.changes first)
    refine ⟨first.trans others, fun b => ?_⟩
    rw [List.foldl_cons, stations, stations_destroyStation h]
    by_cases here : b = a <;> simp [here]

theorem changes_deleteBssid (h : Consistent w) (radioid : ℕ) (bssid : MacAddress) :
    Changes ok fresh w (w.deleteBssid radioid bssid) := by
  cases found : w.getBssid radioid bssid with
  | none => simp only [deleteBssid, found]; rfl
  | some wlan =>
    simp only [deleteBssid, found]
    obtain ⟨destroyed, stations⟩ :
        Changes ok fresh w (wlan.stations.foldl destroyStation w) ∧ _ :=
      changes_foldl_destroyStation h wlan.stations
    refine destroyed.trans (Change.erase _ _ fun a st left on => ?_).changes
    -- a station that is left is not in the list, so it does not name the WLAN
    rw [stations] at left
    split at left
    · simp at left
    next absent => exact absent (((h.listed (radioid, bssid) wlan found).2 a).2 ⟨st, left, on⟩)

theorem changes_stationTimeout (h : Consistent w) (a : MacAddress) : Changes ok fresh w (w.stationTimeout a) := by
  rw [stationTimeout]
  split
  · rfl
  · split
    · exact changes_deleteStation h a
    · rfl

theorem changes_createStation (h : Consistent w) {radioid : ℕ} {bssid : MacAddress}
    (created : w.createStation radioid bssid a = some w') : Changes ok fresh w w' := by
  cases there : w.getBssid radioid bssid with
  | none => simp [createStation, there] at created
  | some wlan =>
    simp only [createStation, there, some.injEq] at created
    subst created
    -- a record that is there is set to itself, otherwise a new one is inserted
    have inserted : Changes ok fresh w (w.setStation ((w.stations a).getD { address := a })) := by
      cases found : w.stations a with
      | none => exact (Change.insert w a found).changes
      | some st =>
        have same : w.setStation st = w := by
          rw [setStation, ← h.known found, Function.update_eq_self]
        rw [getD_some, same]
    have address : ((w.stations a).getD { address := a }).address = a := by
      cases found : w.stations a with
      | none => rfl
      | some st => exact h.keyed a st found
    generalize (w.stations a).getD { address := a } = station at inserted address
    have known : (w.setStation station).stations station.address = some station := by
      rw [stations_setStation, if_pos rfl]
    have listed : w.lookup wlan.ref = some wlan := by
      rw [ref_of_lookup (show w.lookup (radioid, bssid) = some wlan from there)]
      exact there
    refine inserted.trans (Changes.trans (Change.reset _ station (some wlan.ref) known ?_).changes ?_)
    · intro ref target
      rw [← some.inj target, lookup_setStation, listed]
      rfl
    · refine Changes.trans (changes_modifyStation _ a ?_) (Change.created _ a ?_).changes
      · exact fun st => .of_flags id id
      intro st found
      rw [stations_modifyStation, if_pos rfl, stations_resetStation, if_pos address.symm] at found
      rw [← some.inj found]
      exact ⟨rfl, rfl⟩

/-! ## Management frames -/

theorem getStation_eq_some {radioid : ℕ} {bssid : Option MacAddress}
    (h : w.getStation radioid bssid a = some st) : w.stations a = some st :=
  (filter_eq_some_iff.1 h).1

variable {wlan : Wlan}

theorem On.of_wlanOf (found : w.stations a = some st) (on : w.wlanOf st = some wlan) : w.On a st wlan := by
  obtain ⟨ref, named, there⟩ := bind_eq_some_iff.1 on
  have same : wlan.ref = ref := ref_of_lookup there
  exact ⟨found, by rw [named, same], by rw [same]; exact there⟩

theorem On.of_stationAndWlan {radioid : ℕ} {bssid : MacAddress}
    (h : w.stationAndWlan radioid bssid a = some (st, wlan)) : w.On a st wlan := by
  obtain ⟨st', found, rest⟩ := bind_eq_some_iff.1 h
  obtain ⟨wlan', on, eq⟩ := map_eq_some_iff.1 rest
  cases eq
  exact .of_wlanOf (getStation_eq_some found) on

theorem On.modifyStation (h : w.On a st wlan) {f : Station → Station}
    (keeps : (f st).wlan = st.wlan) : (w.modifyStation a f).On a (f st) wlan :=
  ⟨by rw [stations_modifyStation, if_pos rfl, h.found]; rfl, keeps.trans h.on, h.there⟩

theorem changes_authorizeStation (w : Wlans) (a : MacAddress) : Changes ok fresh w (w.authorizeStation a) := by
  rw [authorizeStation]
  split
  · rfl
  next st found =>
    split
    next flags =>
      split
      · rfl
      next wlan on =>
        exact Changes.trans (Change.authorize w (.of_wlanOf found on) flags.1 flags.2.1).changes
          (changes_sendAction _ _)
    · rfl

theorem changes_answerAuthentication (h : Consistent w) (wlan : Wlan)
    (algorithm transactionseqnumber : UInt16) {answered : Bool}
    (allowed : answered → ok (authenticationStatus wlan algorithm transactionseqnumber)) :
    Changes ok fresh w (w.answerAuthentication wlan a algorithm transactionseqnumber answered) := by
  rw [answerAuthentication]
  have noted : Changes ok fresh w
      (if authenticationStatus wlan algorithm transactionseqnumber = .success then
        w.modifyStation a fun station => { station with authalgorithm := algorithm } else w) := by
    split
    · exact changes_modifyStation w a
    · rfl
  dsimp only
  split
  next yes => exact noted.trans (Change.authenticate _ a _ _ _ (allowed yes)).changes
  · exact noted.trans (changes_deleteStation (h.changes noted) a)

def associationStatus (wlan : Wlan) (ies : IeItems) : StatusCode :=
  if isValidSsid wlan.ssid ies.ssid then
    if (aidCreate wlan.aidbitfield).2.isSome then .success else .apUnableToHandleNewSta
  else .unspecifiedFailure

theorem changes_associate (on : w.On a st wlan) (ies : IeItems)
    (allowed : isValidSsid wlan.ssid ies.ssid → fresh st.aid) :
    Changes ok fresh w (w.associate wlan a ies).1 ∧ (w.associate wlan a ies).2 = associationStatus wlan ies ∧
      ∃ aid, (w.associate wlan a ies).1.stations a = some { st with aid := aid } := by
  rw [associate, associationStatus]
  by_cases valid : isValidSsid wlan.ssid ies.ssid
  · rw [if_pos valid, if_pos valid]
    cases new : aidCreate wlan.aidbitfield with
    | mk bits aid =>
      cases aid with
      | none =>
        refine ⟨(Change.clearAid w on.found (allowed valid)).changes, rfl, 0, ?_⟩
        rw [stations_modifyStation, if_pos rfl, on.found]
        rfl
      | some aid =>
        refine ⟨(Change.assignAid w on new (allowed valid)).changes, rfl, aid, ?_⟩
        rw [stations_modifyStation, if_pos rfl]
        exact congrArg (Option.map _) on.found
  · rw [if_neg valid, if_neg valid]
    exact ⟨Changes.refl w, rfl, st.aid, on.found⟩

theorem changes_answerAssociation (h : Consistent w) (on : w.On a st wlan)
    (authenticated : st.flags.authenticated) {ies : IeItems} {answered : Bool}
    (allowed : isValidSsid wlan.ssid ies.ssid → fresh st.aid) (status : answered → ok (associationStatus wlan ies)) :
    Changes ok fresh w (w.answerAssociation wlan a ies answered) := by
  obtain ⟨associated, same, aid, found⟩ :
      Changes ok fresh w (w.associate wlan a ies).1 ∧ _ := changes_associate on ies allowed
  rw [answerAssociation]
  dsimp only
  split
  next yes =>
    refine associated.trans (Changes.trans (Change.changes ?_) (changes_authorizeStation _ a))
    exact Change.associate _ found authenticated _ _ _ (same ▸ status yes)
  · exact associated.trans (changes_deleteStation (h.changes associated) a)

/-- What the frame leads to: the status of the answer, and the identifier when a new one is given. -/
def Admits (ok : StatusCode → Prop) (fresh : ℕ → Prop) (w : Wlans) (radioid : ℕ) (mgmt : Mgmt)
    (answered : Bool) : Prop :=
  mgmt.bssid ≠ mgmt.sa → mgmt.bssid = mgmt.da → ∀ ies, mgmt.ies = some ies → match mgmt.body with
    | .authentication algorithm transactionseqnumber _ =>
      ∀ wlan, w.getBssid radioid mgmt.bssid = some wlan → wlan.macmode = .splitMac → answered →
        ok (authenticationStatus wlan algorithm transactionseqnumber)
    | .associationRequest _ _ =>
      ∀ st wlan, w.stationAndWlan radioid mgmt.bssid mgmt.sa = some (st, wlan) →
        st.flags.authenticated → wlan.macmode = .splitMac → ies.rates.isSome →
        (isValidSsid wlan.ssid ies.ssid → fresh st.aid) ∧ (answered → ok (associationStatus wlan ies))
    | _ => True

variable {radioid : ℕ} {mgmt : Mgmt} {answered : Bool}

theorem changes_mgmtAuthenticationPacket (h : Consistent w) {algorithm transactionseqnumber : UInt16}
    (statuscode : UInt16)
    (allowed : mgmt.bssid ≠ mgmt.sa → mgmt.bssid = mgmt.da →
      ∀ wlan, w.getBssid radioid mgmt.bssid = some wlan → wlan.macmode = .splitMac → answered →
        ok (authenticationStatus wlan algorithm transactionseqnumber)) : Changes ok fresh w
      (w.mgmtAuthenticationPacket radioid mgmt algorithm transactionseqnumber statuscode answered) := by
  rw [mgmtAuthenticationPacket]
  split
  next addressed =>
    split
    next w' wlan created there =>
      have first : Changes ok fresh w w' := changes_createStation h created
      have second : Changes ok fresh w
          (w'.modifyStation mgmt.sa fun station => { station with idtimeout := true }) :=
        first.trans (changes_modifyStation w' mgmt.sa)
      dsimp only
      split
      next split_ =>
        exact second.trans (changes_answerAuthentication (h.changes second) wlan algorithm
          transactionseqnumber (allowed addressed.1 addressed.2 wlan there split_))
      · exact second
    · rfl
  · split
    · split
      next known =>
        split
        next accepted => exact (Change.authenticateLocal w (.of_stationAndWlan known) accepted.1).changes
        · rfl
      · rfl
    · rfl

theorem changes_mgmtAssociationRequestPacket (h : Consistent w) {ies : IeItems} (capability listeninterval : UInt16)
    (allowed : mgmt.bssid ≠ mgmt.sa → mgmt.bssid = mgmt.da →
      ∀ st wlan, w.stationAndWlan radioid mgmt.bssid mgmt.sa = some (st, wlan) →
        st.flags.authenticated → wlan.macmode = .splitMac → ies.rates.isSome →
        (isValidSsid wlan.ssid ies.ssid → fresh st.aid) ∧ (answered → ok (associationStatus wlan ies))) :
    Changes ok fresh w (w.mgmtAssociationRequestPacket radioid mgmt ies capability listeninterval answered) := by
  rw [mgmtAssociationRequestPacket]
  split
  next addressed =>
    split
    next st wlan known =>
      have on := On.of_stationAndWlan known
      split
      next authenticated =>
        have first : Changes ok fresh w (w.modifyStation mgmt.sa fun station =>
            { station with capability := capability, listeninterval := listeninterval }) :=
          changes_modifyStation w mgmt.sa
        cases some : ies.rates with
        | none => exact first
        | some rates =>
          have second := first.trans (changes_modifyStation _ mgmt.sa (f := fun station =>
            { station with supportedrates := rates }))
          dsimp only
          split
          next split_ =>
            obtain ⟨fresh_, status⟩ := allowed addressed.1 addressed.2 st wlan known authenticated
              split_ (by rw [some]; rfl)
            refine second.trans (changes_answerAssociation (h.changes second)
              ((on.modifyStation ?_).modifyStation ?_) authenticated fresh_ status)
            · rfl
            · rfl
          · exact second
      · exact changes_deleteStation h mgmt.sa
    · rfl
  · rfl

theorem changes_mgmtAssociationResponsePacket (w : Wlans) (radioid : ℕ) (mgmt : Mgmt) (ies : IeItems)
    (capability statuscode aid : UInt16) : Changes ok fresh w
      (w.mgmtAssociationResponsePacket radioid mgmt ies capability statuscode aid) := by
  rw [mgmtAssociationResponsePacket]
  split
  · split
    next known =>
      split
      next accepted =>
        have first : Changes ok fresh w _ :=
          (Change.associateLocal w (.of_stationAndWlan known) accepted.1 capability aid.toNat).changes
        split
        · exact first
        · refine first.trans (Changes.trans (changes_modifyStation _ mgmt.da ?_) (changes_authorizeStation _ mgmt.da))
          exact fun _ => ⟨rfl, rfl, rfl, id, id⟩
      · rfl
    · rfl
  · rfl

theorem changes_mgmtDeauthenticationPacket (h : Consistent w) (radioid : ℕ) (mgmt : Mgmt) :
    Changes ok fresh w (w.mgmtDeauthenticationPacket radioid mgmt) := by
  rw [mgmtDeauthenticationPacket]
  split
  · rfl
  · have first : Changes ok fresh w (w.modifyStation (if mgmt.bssid ≠ mgmt.sa then mgmt.sa else mgmt.da)
        fun station => { station with flags := deauthenticated station.flags }) :=
      changes_modifyStation w _ (by
        exact fun st => .of_flags (by simp [deauthenticated]) (by simp [deauthenticated]))
    exact first.trans (changes_deleteStation (h.changes first) _)

theorem changes_ieee80211Packet (h : Consistent w) (admits : Admits ok fresh w radioid mgmt answered) :
    Changes ok fresh w (w.ieee80211Packet radioid mgmt answered) := by
  cases ies : mgmt.ies with
  | none => simp only [ieee80211Packet, ies]; rfl
  | some items =>
    have admits := fun sa da => admits sa da items ies
    cases body : mgmt.body with
    | authentication algorithm transactionseqnumber statuscode =>
      simp only [body] at admits
      simp only [ieee80211Packet, ies, body]
      exact changes_mgmtAuthenticationPacket h statuscode admits
    | associationRequest capability listeninterval =>
      simp only [body] at admits
      simp only [ieee80211Packet, ies, body]
      exact changes_mgmtAssociationRequestPacket h capability listeninterval admits
    | associationResponse capability statuscode aid =>
      simp only [ieee80211Packet, ies, body]
      exact changes_mgmtAssociationResponsePacket w radioid mgmt items capability statuscode aid
    | deauthentication =>
      simp only [ieee80211Packet, ies, body]
      exact changes_mgmtDeauthenticationPacket h radioid mgmt
    | other =>
      simp only [ieee80211Packet, ies, body]
      rfl

theorem changes_executeAddWlan (w : Wlans) (packet : ControlPacket) (addwlan : AddWlan)
    (kmod : Bool) : Changes ok fresh w (w.executeAddWlan packet addwlan kmod) := by
  rw [executeAddWlan]
  split
  · rfl
  next assign _ =>
    split
    · rw [assignBssid]
      split
      · rfl
      next absent =>
        refine (Change.assign w _ ?_ rfl rfl).changes
        exact not_isSome_iff_eq_none.1 absent
    · rfl

theorem changes_executeAddStation (h : Consistent w) (packet : ControlPacket) (element : AddStation) :
    Changes ok fresh w (w.executeAddStation packet element) := by
  rw [executeAddStation]
  split
  · split
    · rfl
    · split
      · rfl
      · split
        · exact changes_modifyStation w _
        · exact changes_deleteStation h _
  · rfl

theorem changes_executeDeleteStation (h : Consistent w) (element : DeleteStation) :
    Changes ok fresh w (w.executeDeleteStation element) := by
  rw [executeDeleteStation]
  split
  · rfl
  · exact changes_deleteStation h _

theorem changes_stationRoaming (h : Consistent w) (a : MacAddress) : Changes ok fresh w (w.stationRoaming a) := by
  rw [stationRoaming]
  split
  · rfl
  · exact changes_deleteStation h _

end Wlans

/-! ## Steps -/

namespace Session

open Wlans

variable {s s' : Session} {ok : StatusCode → Prop} {fresh : ℕ → Prop}

def Admits (ok : StatusCode → Prop) (fresh : ℕ → Prop) (s : Session) : Event → Prop
  | .execute env => ∀ radioid mgmt rest,
      s.action = .recvIeee80211MgmtPacket radioid mgmt :: rest →
        Wlans.Admits ok fresh s.toWlans radioid mgmt env.answered
  | _ => True

theorem changes_sendRequest (s : Session) (type : MessageType) (element : RequestElement)
    (accepted : Bool) (env : Env) : Changes ok fresh s.toWlans (s.sendRequest type element accepted env).toWlans := by
  rw [sendRequest]
  dsimp only
  split <;> rfl

theorem changes_actionExecute (h : Consistent s.toWlans) (env : Env) (action : Action)
    (admits : ∀ radioid mgmt, action = .recvIeee80211MgmtPacket radioid mgmt →
      Wlans.Admits ok fresh s.toWlans radioid mgmt env.answered) :
    Changes ok fresh s.toWlans (s.actionExecute env action).toWlans := by
  cases action with
  | close => rfl
  | resetWtp vendor name =>
    rw [actionExecute, actionResetWtp]
    split <;> exact changes_sendRequest _ _ _ _ _
  | addWlan notify =>
    rw [actionExecute, actionAddWlan]
    split
    · rfl
    · split
      · rfl
      · exact changes_sendRequest _ _ _ _ _
  | recvKeepalive =>
    rw [actionExecute, actionRecvKeepalive]
    dsimp only
    split
    · split <;> rfl
    · rfl
  | recvIeee80211MgmtPacket radioid mgmt => exact changes_ieee80211Packet h (admits radioid mgmt rfl)
  | addStation notify =>
    rw [actionExecute, actionAddStation]
    split
    · rfl
    · split
      · exact changes_sendRequest _ _ _ _ _
      · rfl
  | deleteStation notify =>
    rw [actionExecute, actionDeleteStation]
    split
    · rfl
    · exact changes_sendRequest _ _ _ _ _
  | stationRoaming address => exact changes_stationRoaming h address

theorem changes_handleMessage (h : Consistent s.toWlans) {packet : ControlPacket} {env : Env}
    (handled : s.handleMessage packet env = some s') : Changes ok fresh s.toWlans s'.toWlans := by
  cases type : packet.type with
  | stationConfigurationResponse =>
    simp only [handleMessage, type, receiveStationConfigurationResponse, map_map, map_eq_some_iff] at handled
    obtain ⟨element, -, rfl⟩ := handled
    cases element with
    | addStation element => exact changes_executeAddStation h packet element
    | deleteStation element => exact changes_executeDeleteStation h element
    | addWlan | imageIdentifier => rfl
  | wlanConfigurationResponse =>
    simp only [handleMessage, type, some.injEq] at handled
    subst handled
    simp only [receiveWlanConfigurationResponse, setEchoTimer, freeReferenceLastRequest, withWlans]
    split
    · exact changes_executeAddWlan _ _ _ _
    · rfl
  | echoRequest =>
    simp only [handleMessage, type] at handled
    split at handled <;> exact some.inj handled ▸ Changes.refl _
  | _ =>
    simp only [handleMessage, type, some.injEq] at handled
    exact handled ▸ Changes.refl _

theorem changes_dfaExecute (h : Consistent s.toWlans) {packet : ControlPacket} {env : Env}
    (executed : s.dfaExecute packet env = some s') : Changes ok fresh s.toWlans s'.toWlans := by
  cases state : s.state with
  | run =>
    simp only [dfaExecute, state] at executed
    by_cases handled : s.Handled packet
    · rw [dfaStateRun_of_handled handled] at executed
      have same := (s.numbered_control packet).2.2.2
      rw [← same]
      exact changes_handleMessage (same ▸ h) executed
    · rw [dfaStateRun_of_not_handled handled] at executed
      exact some.inj executed ▸ Changes.refl _
  | reset =>
    simp only [dfaExecute, state, some.injEq] at executed
    subst executed
    rw [dfaStateReset]
    split <;> rfl
  | dataCheckToRun | dtlsTeardown =>
    simp only [dfaExecute, state, some.injEq] at executed
    exact executed ▸ Changes.refl _

theorem toWlans_callTimer (s : Session) (callback : Timeout) : (s.callTimer callback).toWlans = s.toWlans := by
  cases callback with
  | teardown => rfl
  | retransmition =>
    rw [callTimer, retransmitionTimeout]
    split
    · rfl
    · dsimp only
      split <;> rfl

theorem changes_step {e : Event} (h : Consistent s.toWlans) (admits : s.Admits ok fresh e)
    (stepped : s.step e = some s') : Changes ok fresh s.toWlans s'.toWlans := by
  cases e with
  | sendAction action =>
    cases stepped
    exact changes_sendAction _ action
  | execute env =>
    cases request : s.requestfragmentpacket with
    | some r =>
      simp only [step, request, some.injEq] at stepped
      exact stepped ▸ Changes.refl _
    | none =>
      cases actions : s.action with
      | nil =>
        simp only [step, request, actions, some.injEq] at stepped
        exact stepped ▸ Changes.refl _
      | cons action rest =>
        simp only [step, request, actions] at stepped
        split at stepped
        · exact some.inj stepped ▸ Changes.refl _
        · cases stepped
          -- the action leaves the queue, and is executed
          refine Changes.trans (Change.actions s.toWlans rest).changes ?_
          refine changes_actionExecute (s := s.withWlans fun w => { w with action := rest })
            (h.congr rfl rfl) env action fun radioid mgmt eq => ?_
          exact admits radioid mgmt rest (eq ▸ actions)
  | receive packet env =>
    rw [step] at stepped
    split at stepped
    · exact some.inj stepped ▸ Changes.refl _
    · exact changes_dfaExecute h stepped
  | controlTimeout | keepaliveTimeout =>
    rw [step] at stepped
    split at stepped
    · split at stepped
      · cases stepped
        rw [toWlans_callTimer]
      · exact some.inj stepped ▸ Changes.refl _
    · exact some.inj stepped ▸ Changes.refl _
  | stationTimeout address =>
    rw [step] at stepped
    split at stepped
    · cases stepped
      exact changes_stationTimeout h address
    · exact some.inj stepped ▸ Changes.refl _
  | deleteBssid radioid bssid =>
    cases stepped
    exact changes_deleteBssid h radioid bssid

theorem run_tables {P : Wlans → Prop} (kept : ∀ w w', Change ok fresh w w' → Consistent w → P w → P w')
    {events : List Event}
    (consistent : Consistent s.toWlans) (start : P s.toWlans)
    (admits : Along step (Admits ok fresh) s events) (run : runFrom step s events = some s') :
    Consistent s'.toWlans ∧ P s'.toWlans := by
  have both : ∀ w w', Change ok fresh w w' → Consistent w ∧ P w → Consistent w' ∧ P w' :=
    fun w w' change h => ⟨h.1.change change, kept w w' change h.1 h.2⟩
  refine Along.invariant (P := fun s => Consistent s.toWlans ∧ P s.toWlans) ?_ ⟨consistent, start⟩
    admits run
  intro s e s' h admitted stepped
  exact (changes_step h.1 admitted stepped).invariant both h

end Session

end OpenWifi.AcSession
