import OpenWifi.AcSession.AssociationIds

/-!
# Admission of stations in split MAC mode

`Admitted` says that the flags of a station, and the action that adds it, stand for answers with success.  The handlers
set the flags whatever the status of the answer is.
-/

namespace OpenWifi.AcSession

open List Option Ieee80211

def sinceCreation (a : MacAddress) (history : List Output) : List Output :=
  history.foldl (fun since output => if output = .created a then [] else since ++ [output]) []

theorem sinceCreation_append (a : MacAddress) (history : List Output) (output : Output) :
    sinceCreation a (history ++ [output]) =
      if output = .created a then [] else sinceCreation a history ++ [output] := by
  simp [sinceCreation]

def Authenticated (history : List Output) (a : MacAddress) : Prop :=
  ∃ algorithm number, .authenticationResponse a algorithm number .success ∈ sinceCreation a history

/-- Since its record was made, the station was sent an authentication and then an association response with success. -/
def Associated (history : List Output) (a : MacAddress) : Prop :=
  ∃ before after algorithm number capability aid, sinceCreation a history =
      before ++ .associationResponse a capability .success aid :: after ∧
    .authenticationResponse a algorithm number .success ∈ before

variable {history : List Output} {a : MacAddress} {output : Output}

theorem Authenticated.append (h : Authenticated history a) (other : output ≠ .created a) :
    Authenticated (history ++ [output]) a := by
  obtain ⟨algorithm, number, mem⟩ := h
  refine ⟨algorithm, number, ?_⟩
  rw [sinceCreation_append, if_neg other]
  exact mem_append_left _ mem

theorem Associated.append (h : Associated history a) (other : output ≠ .created a) :
    Associated (history ++ [output]) a := by
  obtain ⟨before, after, algorithm, number, capability, aid, eq, mem⟩ := h
  refine ⟨before, after ++ [output], algorithm, number, capability, aid, ?_, mem⟩
  rw [sinceCreation_append, if_neg other, eq]
  simp

theorem authenticated_append (history : List Output) (a : MacAddress) (algorithm number : UInt16) :
    Authenticated (history ++ [.authenticationResponse a algorithm number .success]) a := by
  refine ⟨algorithm, number, ?_⟩
  rw [sinceCreation_append, if_neg (by simp)]
  exact mem_append_right _ (mem_singleton_self _)

theorem Authenticated.associated (h : Authenticated history a) (capability : UInt16) (aid : ℕ) :
    Associated (history ++ [.associationResponse a capability .success aid]) a := by
  obtain ⟨algorithm, number, mem⟩ := h
  refine ⟨sinceCreation a history, [], algorithm, number, capability, aid, ?_, mem⟩
  rw [sinceCreation_append, if_neg (by simp)]

def Queued (history : List Output) : Prop :=
  ∀ before after a, history = before ++ .addStation a .splitMac :: after → Associated before a

theorem Queued.append (h : Queued history) (last : ∀ a, output = .addStation a .splitMac → Associated history a) :
    Queued (history ++ [output]) := by
  intro before after a eq
  rcases eq_nil_or_concat after with rfl | ⟨init, end_, rfl⟩
  · obtain ⟨rfl, same⟩ := append_inj' eq rfl
    exact last a (singleton_injective same)
  · rw [concat_eq_append, ← cons_append, ← append_assoc] at eq
    obtain ⟨same, -⟩ := append_inj' eq rfl
    exact h before init a same

namespace Wlans

variable {w w' : Wlans} {st : Station} {wlan : Wlan}

def Earned (history : List Output) (a : MacAddress) (st : Station) : Prop :=
  (st.flags.authenticated → Authenticated history a) ∧ (st.flags.associate → Associated history a)

structure Admitted (w : Wlans) : Prop where
  flags : ∀ a st wlan, w.On a st wlan → wlan.macmode = .splitMac → Earned w.history a st
  queued : Queued w.history

theorem Earned.append (h : Earned history a st) (other : output ≠ .created a) : Earned (history ++ [output]) a st :=
  ⟨fun flag => (h.1 flag).append other, fun flag => (h.2 flag).append other⟩

theorem Earned.lowers {st' : Station} (h : Earned history a st) (lowers : Lowers st st') : Earned history a st' :=
  ⟨fun flag => h.1 (lowers.authenticated flag), fun flag => h.2 (lowers.associate flag)⟩

theorem On.of_modifyStation {b : MacAddress} {f : Station → Station} (on : (w.modifyStation b f).On a st wlan)
    (keeps : ∀ st, w.stations b = some st → (f st).wlan = st.wlan) :
    ∃ st₀, w.On a st₀ wlan ∧ (a = b ∧ st = f st₀ ∨ a ≠ b ∧ st = st₀) := by
  obtain ⟨found, named, there⟩ := on
  rw [stations_modifyStation] at found
  split at found
  next same =>
    subst same
    obtain ⟨st₀, old, rfl⟩ := map_eq_some_iff.1 found
    exact ⟨st₀, ⟨old, (keeps st₀ old).symm.trans named, there⟩, .inl ⟨rfl, rfl⟩⟩
  next other => exact ⟨st, ⟨found, named, there⟩, .inr ⟨other, rfl⟩⟩

theorem On.unique (on : w.On a st wlan) {st' : Station} {wlan' : Wlan} (on' : w.On a st' wlan') :
    st = st' ∧ wlan = wlan' := by
  obtain rfl := some.inj (on.found.symm.trans on'.found)
  have same : wlan.ref = wlan'.ref := some.inj (on.on.symm.trans on'.on)
  exact ⟨rfl, some.inj (on.there.symm.trans (same ▸ on'.there))⟩

theorem Admitted.of_on (h : Admitted w) (history : w'.history = w.history)
    (back : ∀ a st wlan, w'.On a st wlan → wlan.macmode = .splitMac →
      ∃ st₀ wlan₀, w.On a st₀ wlan₀ ∧ wlan₀.macmode = .splitMac ∧ Lowers st₀ st ∨
        st.flags.authenticated = false ∧ st.flags.associate = false) : Admitted w' := by
  refine ⟨fun a st wlan on mode => ?_, history ▸ h.queued⟩
  rw [history]
  obtain ⟨st₀, wlan₀, ⟨on₀, mode₀, lowers⟩ | ⟨authenticated, associate⟩⟩ := back a st wlan on mode
  · exact (h.flags a st₀ wlan₀ on₀ mode₀).lowers lowers
  · exact ⟨by simp [authenticated], by simp [associate]⟩

theorem Lowers.refl (st : Station) : Lowers st st := ⟨rfl, rfl, rfl, id, id⟩

theorem Admitted.emit (h : Admitted w) {output : Output}
    (flags : ∀ a st wlan, w.On a st wlan → wlan.macmode = .splitMac → output = .created a →
      st.flags.authenticated = false ∧ st.flags.associate = false)
    (last : ∀ a, output = .addStation a .splitMac → Associated w.history a) : Admitted (w.emit output) := by
  refine ⟨fun a st wlan on mode => ?_, h.queued.append last⟩
  have on : w.On a st wlan := ⟨on.found, on.on, on.there⟩
  by_cases created : output = .created a
  · obtain ⟨authenticated, associate⟩ := flags a st wlan on mode created
    exact ⟨by simp [authenticated], by simp [associate]⟩
  · exact (h.flags a st wlan on mode).append created

theorem Admitted.modifyStation (h : Admitted w) {b : MacAddress} {f : Station → Station}
    (keeps : ∀ st, w.stations b = some st → (f st).wlan = st.wlan)
    (earned : ∀ st wlan, w.On b st wlan → wlan.macmode = .splitMac → Earned w.history b st →
      Earned w.history b (f st)) : Admitted (w.modifyStation b f) := by
  refine ⟨fun a st wlan on mode => ?_, h.queued⟩
  obtain ⟨st₀, on₀, ⟨rfl, rfl⟩ | ⟨-, rfl⟩⟩ := on.of_modifyStation keeps
  · exact earned st₀ wlan on₀ mode (h.flags _ st₀ wlan on₀ mode)
  · exact h.flags a st wlan on₀ mode

theorem Admitted.resetStation (h : Admitted w) {station : Station}
    {target : Option WlanRef} : Admitted (w.resetStation station target) := by
  have history : (w.resetStation station target).history = w.history := by
    unfold Wlans.resetStation
    cases station.wlan <;> cases target <;> rfl
  refine h.of_on history fun a st wlan on mode => ?_
  obtain ⟨found, named, there⟩ := on
  rw [lookup_resetStation] at there
  obtain ⟨wlan₀, old, moved_⟩ := map_eq_some_iff.1 there
  rw [← moved_, macmode_moved] at mode
  rcases resetStation_cases found with ⟨rfl, rfl⟩ | ⟨-, before⟩
  · exact ⟨station, wlan₀, .inr ⟨rfl, rfl⟩⟩
  · have ref := ref_of_lookup old
    exact ⟨st, wlan₀, .inl ⟨⟨before, by rw [ref]; exact named, by rw [ref]; exact old⟩, mode, .refl st⟩⟩

theorem Admitted.updateBits (h : Admitted w) (ref : WlanRef) (bits : List (BitVec 32)) :
    Admitted (w.updateWlan ref fun wlan => { wlan with aidbitfield := bits }) := by
  refine h.of_on rfl fun a st wlan on mode => ?_
  obtain ⟨found, named, there⟩ := on
  rw [lookup_updateBits] at there
  obtain ⟨wlan₀, old, eq⟩ := map_eq_some_iff.1 there
  have same : wlan.macmode = wlan₀.macmode := by
    rw [← eq]
    split <;> rfl
  have named₀ : wlan₀.ref = wlan.ref := ref_of_lookup old
  exact ⟨st, wlan₀, .inl ⟨⟨found, by rw [named₀]; exact named, by rw [named₀]; exact old⟩,
    same.symm.trans mode, .refl st⟩⟩

theorem Admitted.change (change : Change (· = .success) (fun _ => True) w w')
    (consistent : Consistent w) (h : Admitted w) : Admitted w' := by
  cases change with
  | actions action => exact ⟨fun a st wlan on => h.flags a st wlan ⟨on.found, on.on, on.there⟩, h.queued⟩
  | deauthentication a => exact h.emit (by simp) (by simp)
  | modify a f lowers =>
    exact h.modifyStation (fun st _ => (lowers st).wlan) fun st _ _ _ earned => earned.lowers (lowers st)
  | insert b absent =>
    refine h.of_on rfl fun a st wlan on mode => ⟨st, wlan, ?_⟩
    obtain ⟨found, named, there⟩ := on
    rw [stations_setStation] at found
    split at found
    · cases found
      exact .inr ⟨rfl, rfl⟩
    · exact .inl ⟨⟨found, named, there⟩, mode, .refl st⟩
  | reset st target known there => exact h.resetStation
  | created a clear =>
    refine h.emit (fun b st wlan on _ same => ?_) (by simp)
    obtain rfl : a = b := by simpa using same
    exact clear st on.found
  | remove b off =>
    refine h.of_on rfl fun a st wlan on mode => ⟨st, wlan, .inl ⟨⟨?_, on.on, on.there⟩, mode, .refl st⟩⟩
    have found := on.found
    simp only [Function.update_apply] at found
    split at found
    · simp at found
    · exact found
  | assign new absent aids empty =>
    refine h.of_on rfl fun a st wlan on mode => ⟨st, wlan, .inl ⟨⟨on.found, on.on, ?_⟩, mode, .refl st⟩⟩
    obtain ⟨old, eq⟩ := isSome_iff_exists.1 (consistent.attached a st wlan.ref on.found on.on)
    have there := on.there
    rw [lookup_append, eq, some_or] at there
    exact eq.trans there
  | erase ref free =>
    refine h.of_on rfl fun a st wlan on mode => ⟨st, wlan, .inl ⟨⟨on.found, on.on, ?_⟩, mode, .refl st⟩⟩
    have there := on.there
    rw [lookup_erase consistent.distinct] at there
    split at there
    · simp at there
    · exact there
  | authenticate a algorithm number status success =>
    subst success
    refine (h.emit (by simp) (by simp)).modifyStation (fun _ _ => rfl) fun st wlan on mode earned => ?_
    exact ⟨fun _ => authenticated_append _ _ _ _, earned.2⟩
  | authenticateLocal on local_ =>
    refine h.modifyStation (fun _ _ => rfl) fun st wlan on' mode _ => ?_
    rw [← (on.unique on').2, local_] at mode
    simp at mode
  | assignAid on new => exact (h.updateBits _ _).modifyStation (fun _ _ => rfl) fun _ _ _ _ earned => earned
  | clearAid found => exact h.modifyStation (fun _ _ => rfl) fun _ _ _ _ earned => earned
  | associate found authenticated capability status aid success =>
    subst success
    refine (h.emit (by simp) (by simp)).modifyStation (fun _ _ => rfl) fun st wlan on mode earned =>
      ⟨earned.1, fun _ => ?_⟩
    have before : w.On _ st wlan := ⟨on.found, on.on, on.there⟩
    obtain rfl := some.inj (found.symm.trans before.found)
    exact ((h.flags _ _ _ before mode).1 authenticated).associated capability aid
  | associateLocal on local_ =>
    refine h.modifyStation (fun _ _ => rfl) fun st wlan on' mode _ => ?_
    rw [← (on.unique on').2, local_] at mode
    simp at mode
  | authorize on authenticated associate =>
    refine h.emit (by simp) fun b same => ?_
    obtain ⟨rfl, mode⟩ := Output.addStation.inj same
    exact (h.flags _ _ _ on mode).2 associate

end Wlans

namespace Session

open Wlans

variable {s s' : Session}

def HasFreeAid (aidbitfield : List (BitVec 32)) : Prop :=
  ∃ aid, aid ≠ 0 ∧ aid ≤ aidMaxValue ∧ aid ≤ aidbitfield.length * 32 ∧ ¬ AidSet aidbitfield aid

theorem HasFreeAid.isSome_aidCreate {bits : List (BitVec 32)} (h : HasFreeAid bits) : (aidCreate bits).2.isSome := by
  obtain ⟨aid, positive, small, inside, free⟩ := h
  rw [isSome_iff_ne_none]
  intro none
  exact free ⟨positive, bit_of_aidCreateFrom_eq_none none (by omega) (by omega)⟩

/-- An authentication request asks for the open system, and an association request has the SSID of the WLAN, which has a
free identifier. -/
def AnswersSuccess (s : Session) : Event → Prop
  | .execute env => ∀ radioid mgmt rest ies,
      s.action = .recvIeee80211MgmtPacket radioid mgmt :: rest → mgmt.ies = some ies →
      mgmt.bssid ≠ mgmt.sa → mgmt.bssid = mgmt.da → env.answered →
      (∀ algorithm number statuscode wlan, mgmt.body = .authentication algorithm number statuscode →
        s.getBssid radioid mgmt.bssid = some wlan → wlan.macmode = .splitMac →
        algorithm = 0 ∧ wlan.authmode = .openSystem ∧ number = 1) ∧
      ∀ capability listeninterval st wlan,
        mgmt.body = .associationRequest capability listeninterval →
        s.stationAndWlan radioid mgmt.bssid mgmt.sa = some (st, wlan) → st.flags.authenticated →
        wlan.macmode = .splitMac → ies.rates.isSome →
        ies.ssid = some wlan.ssid ∧ HasFreeAid wlan.aidbitfield
  | _ => True

theorem AnswersSuccess.admits {e : Event} (h : s.AnswersSuccess e) : s.Admits (· = .success) (fun _ => True) e := by
  cases e with
  | execute env =>
    intro radioid mgmt rest action sa da ies some
    have h := h radioid mgmt rest ies action some sa da
    cases body : mgmt.body with
    | authentication algorithm number statuscode =>
      intro wlan there mode answered
      obtain ⟨openSystem, authmode, first⟩ := (h answered).1 algorithm number statuscode wlan body there mode
      simp [authenticationStatus, openSystem, authmode, first]
    | associationRequest capability listeninterval =>
      intro st wlan known authenticated mode rates
      refine ⟨fun _ => trivial, fun answered => ?_⟩
      obtain ⟨ssid, free⟩ := (h answered).2 capability listeninterval st wlan body known authenticated
        mode rates
      simp [associationStatus, isValidSsid, ssid, free.isSome_aidCreate]
    | _ => trivial
  | _ => trivial

/-- If every answer is one of success, a station in split MAC mode is added only after it was sent the two responses
with success. -/
theorem run_admitted {events : List Event} (wlans : s.wlans = []) (stations : ∀ a, s.stations a = none)
    (history : s.history = []) (success : Along step AnswersSuccess s events)
    (run : runFrom step s events = some s') : Admitted s'.toWlans := by
  have start : Admitted s.toWlans := by
    refine ⟨fun a st wlan on => ?_, fun before after a eq => ?_⟩
    · exact absurd on.found (by simp [stations a])
    · simp [history] at eq
  have admits : Along step (Admits (· = .success) (fun _ => True)) s events :=
    success.imp (P := fun _ => True) (fun _ _ _ _ _ _ => trivial) (fun _ _ _ h => h.admits) trivial
  exact (run_tables (fun _ _ change consistent h => h.change change consistent)
    (consistent_of_empty wlans stations) start admits run).2

/-- A station is authenticated and associated with success, and added. -/
theorem run_admitted_associate :
    ∃ s', runFrom step started (guestEvents [.authentication 0 1 0, .associationRequest 0 0]) = some s' ∧
      s'.history = [.created 1, .authenticationResponse 1 0 2 .success,
        .associationResponse 1 0 .success 0xC001, .addStation 1 .splitMac] ∧ Admitted s'.toWlans := by
  refine run_and ⟨_, rfl, by decide +kernel⟩ fun s' run _ => run_admitted (s := started) rfl (fun _ => rfl) rfl ?_ run
  -- the last two steps handle the frames
  refine ⟨trivial, fun s₁ h₁ => ⟨?_, fun s₂ h₂ => ⟨trivial, fun s₃ h₃ => ⟨trivial, fun s₄ h₄ =>
    ⟨trivial, fun s₅ h₅ => ⟨?_, fun s₆ h₆ => ⟨?_, fun _ _ => trivial⟩⟩⟩⟩⟩⟩⟩
  all_goals
    intro radioid mgmt rest ies action items _ _ _
    cases h₁
  · exact absurd (List.cons.inj action).1 (by simp)
  · cases h₂
    cases h₃
    cases h₄
    cases h₅
    obtain ⟨rfl, rfl⟩ := Action.recvIeee80211MgmtPacket.inj (List.cons.inj action).1
    refine ⟨fun algorithm number statuscode wlan body there _ => ?_, fun _ _ _ _ body => ?_⟩
    · obtain ⟨rfl, rfl, rfl⟩ := MgmtBody.authentication.inj body
      have mode := congrArg (Option.map Wlan.authmode) there
      exact ⟨rfl, (some.inj mode).symm, rfl⟩
    · exact absurd body (by simp [guestFrame])
  · cases h₂
    cases h₃
    cases h₄
    cases h₅
    cases h₆
    obtain ⟨rfl, rfl⟩ := Action.recvIeee80211MgmtPacket.inj (List.cons.inj action).1
    cases items
    refine ⟨fun _ _ _ _ body => absurd body (by simp [guestFrame]), fun _ _ st wlan _ known _ _ _ => ?_⟩
    have ssid := congrArg (Option.map fun known => known.2.ssid) known
    have field := congrArg (Option.map fun known => known.2.aidbitfield) known
    have bits : noAids = wlan.aidbitfield := some.inj field
    refine ⟨congrArg some (some.inj ssid), ?_⟩
    rw [← bits]
    exact ⟨1, by decide, by decide, by decide, not_aidSet_noAids 1⟩

/-- The station asks for an authentication that is not supported and is told so; it is associated and
added all the same. -/
theorem refused_station_is_added :
    ∃ s', runFrom step started (guestEvents [.authentication 5 1 0, .associationRequest 0 0]) = some s' ∧
      s'.history = [.created 1, .authenticationResponse 1 5 2 .notSupportedAuthenticationAlgorithm,
        .associationResponse 1 0 .success 0xC001, .addStation 1 .splitMac] ∧ ¬ Admitted s'.toWlans := by
  refine run_and ⟨_, rfl, by decide +kernel⟩ fun s' _ history admitted => ?_
  obtain ⟨before, after, algorithm, number, capability, aid, eq, mem⟩ :=
    admitted.queued [.created 1, .authenticationResponse 1 5 2 .notSupportedAuthenticationAlgorithm,
      .associationResponse 1 0 .success 0xC001] [] 1 (by rw [history]; rfl)
  have mem := eq ▸ mem_append_left (_ :: after) mem
  simp [sinceCreation] at mem

end Session

end OpenWifi.AcSession
