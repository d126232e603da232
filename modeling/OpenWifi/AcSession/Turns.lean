import OpenWifi.AcSession.Dfa

/-!
# What a turn of the loop can do

Inversion lemmas for the step of a session: a turn leaves the request alone, executes an action, handles a control
message, or calls a timer.
-/

namespace OpenWifi.AcSession

open Option

namespace Session

variable {s s' : Session} {packet : ControlPacket} {env : Env}

structure SameControl (s s' : Session) : Prop where
  state : s'.state = s.state
  request : s'.requestfragmentpacket = s.requestfragmentpacket
  number : s'.localseqnumber = s.localseqnumber
  timer : s'.timercontrol = s.timercontrol

theorem SameControl.refl (s : Session) : s.SameControl s := ⟨rfl, rfl, rfl, rfl⟩

theorem sameControl_withWlans (s : Session) (f : Wlans → Wlans) : s.SameControl (s.withWlans f) :=
  ⟨rfl, rfl, rfl, rfl⟩

theorem actionExecute_cases (s : Session) (env : Env) (action : Action) :
    ((s.actionExecute env action).requestfragmentpacket = s.requestfragmentpacket ∧
      (s.actionExecute env action).localseqnumber = s.localseqnumber) ∨
    ∃ type element accepted state, s.actionExecute env action =
      { s.sendRequest type element accepted env with state := state } := by
  have sends (type : MessageType) (element : RequestElement) (accepted : Bool) :
      ∃ type' element' accepted' state, s.sendRequest type element accepted env =
        { s.sendRequest type' element' accepted' env with state := state } :=
    ⟨type, element, accepted, _, rfl⟩
  cases action with
  | close | recvIeee80211MgmtPacket | stationRoaming => exact .inl ⟨rfl, rfl⟩
  | resetWtp vendor name =>
    rw [actionExecute, actionResetWtp]
    split
    · exact .inr ⟨_, _, _, .reset, rfl⟩
    · exact .inr (sends _ _ _)
  | addWlan notify =>
    rw [actionExecute, actionAddWlan]
    split
    · exact .inl ⟨rfl, rfl⟩
    · split
      · exact .inl ⟨rfl, rfl⟩
      · exact .inr (sends _ _ _)
  | recvKeepalive =>
    rw [actionExecute, actionRecvKeepalive]
    dsimp only
    split
    · split <;> exact .inl ⟨rfl, rfl⟩
    · exact .inl ⟨rfl, rfl⟩
  | addStation notify =>
    rw [actionExecute, actionAddStation]
    split
    · exact .inl ⟨rfl, rfl⟩
    · split
      · exact .inr (sends _ _ _)
      · exact .inl ⟨rfl, rfl⟩
  | deleteStation notify =>
    rw [actionExecute, actionDeleteStation]
    split
    · exact .inl ⟨rfl, rfl⟩
    · exact .inr (sends _ _ _)

theorem sendRequest_cases (s : Session) (type : MessageType) (element : RequestElement) (accepted : Bool) (env : Env) :
    (s.sendRequest type element accepted env).localseqnumber = s.localseqnumber ∧
      ((s.sendRequest type element accepted env).requestfragmentpacket = none ∨
        (s.sendRequest type element accepted env).requestfragmentpacket = some ⟨type, s.localseqnumber, element,
              CapwapProtocol.getFragmentPackets env.fragments s.fragmentid.toNat⟩ ∧
          (s.sendRequest type element accepted env).timercontrol = some ⟨retransmitInterval, .retransmition⟩) := by
  rw [sendRequest]
  dsimp only
  split
  · exact ⟨rfl, .inr ⟨rfl, rfl⟩⟩
  · exact ⟨rfl, .inl rfl⟩

/-! ## Control messages -/

def rearms (packet : ControlPacket) (env : Env) : Bool :=
  match packet.type with
  | .configurationUpdateResponse | .changeStateEventRequest | .clearConfigurationResponse
  | .wtpEventRequest | .dataTransferRequest | .dataTransferResponse => true
  | .echoRequest => env.backend
  | _ => false

/-- What a control message can do: it answers the outstanding request, ends the session, or leaves the
request and may set the control timer. -/
theorem handleMessage_cases (h : s.handleMessage packet env = some s') : s'.localseqnumber = s.localseqnumber ∧
    (rearms packet env = false ∧ (s'.requestfragmentpacket = none ∨
        s'.requestfragmentpacket = s.requestfragmentpacket ∧ s'.state = .dtlsTeardown) ∨
      s'.requestfragmentpacket = s.requestfragmentpacket ∧ s'.state = s.state ∧ s'.timercontrol =
          if rearms packet env then some ⟨maxEchoInterval, .teardown⟩ else s.timercontrol) := by
  cases type : packet.type with
  | stationConfigurationResponse =>
    simp only [handleMessage, type, receiveStationConfigurationResponse, map_map, map_eq_some_iff] at h
    obtain ⟨element, -, rfl⟩ := h
    exact ⟨rfl, .inl ⟨by simp [rearms, type], .inl rfl⟩⟩
  | wlanConfigurationResponse =>
    simp only [handleMessage, type, some.injEq] at h
    subst h
    exact ⟨rfl, .inl ⟨by simp [rearms, type], .inl rfl⟩⟩
  | echoRequest =>
    simp only [handleMessage, type] at h
    split at h
    next backend =>
      cases h
      exact ⟨rfl, .inr ⟨rfl, rfl, by simp [rearms, type, backend, setEchoTimer]⟩⟩
    next backend =>
      cases h
      exact ⟨rfl, .inl ⟨by simpa [rearms, type] using backend, .inr ⟨rfl, rfl⟩⟩⟩
  | _ =>
    simp only [handleMessage, type, some.injEq] at h
    subst h
    exact ⟨rfl, .inr ⟨rfl, rfl, by simp [rearms, type, setEchoTimer]⟩⟩

def Handled (s : Session) (packet : ControlPacket) : Prop :=
  packet.type.isRequest ∨ s.localseqnumber = packet.seq

def numbered (s : Session) (packet : ControlPacket) : Session :=
  if packet.type.isRequest then s else { s with localseqnumber := s.localseqnumber + 1 }

theorem dfaStateRun_of_handled (h : s.Handled packet) :
    s.dfaStateRun packet env = (s.numbered packet).handleMessage packet env := by
  rw [dfaStateRun, numbered]
  by_cases request : packet.type.isRequest
  · rw [if_pos request, if_pos request]
  · rw [if_neg request, if_neg request, if_pos (h.resolve_left request)]

theorem dfaStateRun_of_not_handled (h : ¬ s.Handled packet) : s.dfaStateRun packet env = some s := by
  simp only [Handled, not_or] at h
  rw [dfaStateRun, if_neg h.1, if_neg h.2]

theorem numbered_control (s : Session) (packet : ControlPacket) :
    (s.numbered packet).state = s.state ∧ (s.numbered packet).requestfragmentpacket = s.requestfragmentpacket ∧
      (s.numbered packet).timercontrol = s.timercontrol ∧ (s.numbered packet).toWlans = s.toWlans := by
  rw [numbered]
  split <;> exact ⟨rfl, rfl, rfl, rfl⟩

theorem callTimer_cases (s : Session) (callback : Timeout) : (s.callTimer callback).localseqnumber = s.localseqnumber ∧
    ((s.callTimer callback).requestfragmentpacket = none ∨
      (s.callTimer callback).requestfragmentpacket = s.requestfragmentpacket ∧
        ((s.callTimer callback).state = .dtlsTeardown ∨
          (s.callTimer callback).timercontrol = some ⟨retransmitInterval, .retransmition⟩)) := by
  cases callback with
  | teardown => exact ⟨rfl, .inr ⟨rfl, .inl rfl⟩⟩
  | retransmition =>
    rw [callTimer, retransmitionTimeout]
    split
    · exact ⟨rfl, .inr ⟨rfl, .inl rfl⟩⟩
    · dsimp only
      split
      · exact ⟨rfl, .inl rfl⟩
      · exact ⟨rfl, .inr ⟨rfl, .inr rfl⟩⟩

def Receives (s : Session) (packet : ControlPacket) : Prop := s.reads ∧ s.isRepeated packet = false

theorem step_cases {e : Event} (h : s.step e = some s') :
    s.SameControl s' ∧ (∀ packet env, e = .receive packet env → ¬ s.Receives packet) ∨
    (∃ env action, ∃ t : Session, s' = t.actionExecute env action ∧ e = .execute env ∧ t.requestfragmentpacket = none) ∨
    (∃ packet env, e = .receive packet env ∧ s.Receives packet ∧ s.dfaExecute packet env = some s') ∨
    (∃ callback, ∃ t : Session, s' = t.callTimer callback ∧
      t.requestfragmentpacket = s.requestfragmentpacket ∧ t.localseqnumber = s.localseqnumber ∧
      ∀ packet env, e ≠ .receive packet env) := by
  cases e with
  | sendAction action =>
    cases h
    exact .inl ⟨sameControl_withWlans _ _, by simp⟩
  | execute env =>
    cases request : s.requestfragmentpacket with
    | some r =>
      simp only [step, request, some.injEq] at h
      exact .inl ⟨h ▸ SameControl.refl s, by simp⟩
    | none =>
      cases actions : s.action with
      | nil =>
        simp only [step, request, actions, some.injEq] at h
        exact .inl ⟨h ▸ SameControl.refl s, by simp⟩
      | cons action rest =>
        simp only [step, request, actions] at h
        split at h
        · exact .inl ⟨some.inj h ▸ SameControl.refl s, by simp⟩
        · exact .inr (.inl ⟨env, action, _, (some.inj h).symm, rfl, request⟩)
  | receive packet env =>
    rw [step] at h
    split at h
    next skipped =>
      refine .inl ⟨some.inj h ▸ SameControl.refl s, ?_⟩
      rintro _ _ ⟨⟩ ⟨read, fresh⟩
      simp [read, fresh] at skipped
    next read =>
      simp only [Bool.or_eq_true, Bool.not_eq_true', not_or, Bool.not_eq_false, Bool.not_eq_true]
        at read
      exact .inr (.inr (.inl ⟨packet, env, rfl, read, h⟩))
  | controlTimeout | keepaliveTimeout =>
    rw [step] at h
    split at h
    · split at h
      · exact .inr (.inr (.inr ⟨_, _, (some.inj h).symm, rfl, rfl, by simp⟩))
      · exact .inl ⟨some.inj h ▸ SameControl.refl s, by simp⟩
    · exact .inl ⟨some.inj h ▸ SameControl.refl s, by simp⟩
  | stationTimeout address =>
    rw [step] at h
    split at h
    · exact .inl ⟨some.inj h ▸ sameControl_withWlans _ _, by simp⟩
    · exact .inl ⟨some.inj h ▸ SameControl.refl s, by simp⟩
  | deleteBssid radioid bssid =>
    cases h
    exact .inl ⟨sameControl_withWlans _ _, by simp⟩

end Session

end OpenWifi.AcSession
