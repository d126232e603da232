import OpenWifi.AcSession.Turns
import OpenWifi.CapwapProtocol.Delivery

/-!
# Responses and the requests they answer

A response is accepted for its number alone.  `Proper` says what a session has to do with one.
-/

namespace OpenWifi.AcSession

open Option CapwapProtocol

def MessageType.answers : MessageType → Option MessageType
  | stationConfigurationResponse => some stationConfigurationRequest
  | wlanConfigurationResponse => some wlanConfigurationRequest
  | _ => none

namespace Session

variable {s s' : Session} {packet : ControlPacket} {env : Env}

def Answered (s : Session) (packet : ControlPacket) : Prop :=
  ∃ request, s.requestfragmentpacket = some request ∧ packet.type.answers = some request.type ∧ request.seq = packet.seq

def Unchanged (s s' : Session) : Prop :=
  s'.localseqnumber = s.localseqnumber ∧ s'.requestfragmentpacket = s.requestfragmentpacket ∧
    s'.stations = s.stations ∧ s'.wlans = s.wlans

def Proper (s : Session) : Event → Prop
  | .receive packet env =>
    s.state = .run → ∃ s', s.step (.receive packet env) = some s' ∧
      (packet.type.answers.isSome → s.Unchanged s' ∨ s.Answered packet) ∧
      (packet.type.isRequest = false → ∀ request, s.requestfragmentpacket = some request →
        packet.type.answers ≠ some request.type → s'.localseqnumber = s.localseqnumber)
  | _ => True

/-- A response with the expected number answers the outstanding request; a response of another type comes when there is
none. -/
def Orderly (s : Session) : Event → Prop
  | .receive packet _ =>
    s.state = .run → s.reads → packet.type.isRequest = false → s.localseqnumber = packet.seq →
      match packet.type.answers with
      | some type => ∃ request, s.requestfragmentpacket = some request ∧ request.type = type ∧
          (packet.type = .stationConfigurationResponse → request.packets.length = 1)
      | none => s.requestfragmentpacket = none
  | _ => True

/-- An outstanding request carries the number expected next, and can be read again if it was sent in one packet. -/
structure Synced (s : Session) : Prop where
  number : ∀ request, s.requestfragmentpacket = some request → request.seq = s.localseqnumber
  readable : ∀ request, s.requestfragmentpacket = some request → request.packets.length = 1 →
    (createFromRequestFragmentPacket request.packets).isSome

theorem Synced.of_none (h : s.requestfragmentpacket = none) : s.Synced :=
  ⟨by simp [h], by simp [h]⟩

theorem Synced.congr (h : s.Synced) (request : s'.requestfragmentpacket = s.requestfragmentpacket)
    (number : s'.localseqnumber = s.localseqnumber) : s'.Synced :=
  ⟨by rw [request, number]; exact h.number, by rw [request]; exact h.readable⟩

theorem actionExecute_synced (free : s.requestfragmentpacket = none) (env : Env) (action : Action) :
    (s.actionExecute env action).Synced := by
  rcases s.actionExecute_cases env action with ⟨same, -⟩ | ⟨type, element, accepted, state, eq⟩
  · exact Synced.of_none (same.trans free)
  · rw [eq]
    obtain ⟨number, none | ⟨sent, -⟩⟩ := s.sendRequest_cases type element accepted env
    · exact Synced.of_none none
    · refine ⟨fun request outstanding => ?_, fun request outstanding one => ?_⟩
      · obtain rfl := some.inj (sent.symm.trans outstanding)
        exact number.symm
      · obtain rfl := some.inj (sent.symm.trans outstanding)
        exact env.written.isSome_rebuild one

theorem Synced.of_cases (h : s.Synced) (number : s'.localseqnumber = s.localseqnumber)
    (request : s'.requestfragmentpacket = none ∨ s'.requestfragmentpacket = s.requestfragmentpacket) : s'.Synced := by
  rcases request with none | same
  · exact Synced.of_none none
  · exact h.congr same number

theorem callTimer_synced (h : s.Synced) (callback : Timeout) : (s.callTimer callback).Synced := by
  obtain ⟨number, request⟩ := s.callTimer_cases callback
  exact h.of_cases number (request.imp_right And.left)

theorem handleMessage_request (h : s.handleMessage packet env = some s') :
    s'.requestfragmentpacket = none ∨ s'.requestfragmentpacket = s.requestfragmentpacket := by
  rcases (handleMessage_cases h).2 with ⟨-, none | ⟨same, -⟩⟩ | ⟨same, -⟩
  · exact .inl none
  · exact .inr same
  · exact .inr same

theorem handleMessage_answers (h : s.handleMessage packet env = some s')
    (answers : packet.type.answers.isSome) : s'.requestfragmentpacket = none := by
  cases type : packet.type <;> simp only [type, MessageType.answers, isSome_none,
    isSome_some, Bool.false_eq_true] at answers
  · simp only [handleMessage, type, receiveStationConfigurationResponse, map_map, map_eq_some_iff] at h
    obtain ⟨element, -, rfl⟩ := h
    rfl
  · simp only [handleMessage, type, some.injEq] at h
    subst h
    rfl

theorem isSome_handleMessage (env : Env) (h : packet.type = .stationConfigurationResponse → s.rebuiltRequest.isSome) :
    ∃ s', s.handleMessage packet env = some s' := by
  cases type : packet.type with
  | stationConfigurationResponse =>
    obtain ⟨element, rebuilt⟩ := isSome_iff_exists.1 (h type)
    simp [handleMessage, type, receiveStationConfigurationResponse, rebuilt]
  | echoRequest =>
    simp only [handleMessage, type]
    split <;> exact ⟨_, rfl⟩
  | _ => exact ⟨_, by simp only [handleMessage, type]; rfl⟩

theorem MessageType.answers_of_isRequest {type : MessageType} (h : type.isRequest) : type.answers = none := by
  cases type <;> first | rfl | simp [MessageType.isRequest] at h

def Settles (s : Session) (packet : ControlPacket) (s' : Session) : Prop :=
  s'.Synced ∧ (packet.type.answers.isSome → s.Unchanged s' ∨ s.Answered packet) ∧
    (packet.type.isRequest = false → ∀ request, s.requestfragmentpacket = some request →
      packet.type.answers ≠ some request.type → s'.localseqnumber = s.localseqnumber)

theorem handleMessage_settles_request (synced : s.Synced) (request : packet.type.isRequest) :
    ∃ s', s.handleMessage packet env = some s' ∧ s.Settles packet s' := by
  have none := MessageType.answers_of_isRequest request
  have other : packet.type = .stationConfigurationResponse → s.rebuiltRequest.isSome := by
    intro type
    simp [type, MessageType.answers] at none
  obtain ⟨s', handled⟩ := isSome_handleMessage env other
  refine ⟨s', handled, synced.of_cases (handleMessage_cases handled).1 (handleMessage_request handled),
    by simp [none], by simp [request]⟩

theorem handleMessage_settles_answer (synced : s.Synced) {t : Session} {request : Request}
    (same : t.requestfragmentpacket = s.requestfragmentpacket) (outstanding : s.requestfragmentpacket = some request)
    (answers : packet.type.answers = some request.type) (number : s.localseqnumber = packet.seq)
    (one : packet.type = .stationConfigurationResponse → request.packets.length = 1) :
    ∃ s', t.handleMessage packet env = some s' ∧ s.Settles packet s' := by
  have rebuilt : packet.type = .stationConfigurationResponse → t.rebuiltRequest.isSome := by
    intro type
    have readable := synced.readable request outstanding (one type)
    simpa [rebuiltRequest, same, outstanding] using readable
  obtain ⟨s', handled⟩ := isSome_handleMessage env rebuilt
  refine ⟨s', handled, Synced.of_none (handleMessage_answers handled (by simp [answers])), ?_, ?_⟩
  · exact fun _ => .inr ⟨request, outstanding, answers, (synced.number _ outstanding).trans number⟩
  · intro _ request' outstanding' other
    obtain rfl := some.inj (outstanding.symm.trans outstanding')
    exact absurd answers other

theorem handleMessage_settles_other {t : Session} (free : s.requestfragmentpacket = none)
    (same : t.requestfragmentpacket = s.requestfragmentpacket) (other : packet.type.answers = none) :
    ∃ s', t.handleMessage packet env = some s' ∧ s.Settles packet s' := by
  have rebuilt : packet.type = .stationConfigurationResponse → t.rebuiltRequest.isSome := by
    intro type
    simp [type, MessageType.answers] at other
  obtain ⟨s', handled⟩ := isSome_handleMessage env rebuilt
  have none : s'.requestfragmentpacket = none :=
    (handleMessage_request handled).elim id fun eq => eq.trans (same.trans free)
  exact ⟨s', handled, Synced.of_none none, by simp [other], by simp [free]⟩

theorem dfaStateRun_settles (synced : s.Synced) (running : s.state = .run) (reads : s.reads)
    (orderly : s.Orderly (.receive packet env)) : ∃ s', s.dfaStateRun packet env = some s' ∧ s.Settles packet s' := by
  by_cases handled : s.Handled packet
  · rw [dfaStateRun_of_handled handled]
    by_cases request : packet.type.isRequest
    · rw [numbered, if_pos request]
      exact handleMessage_settles_request synced request
    · have number := handled.resolve_left request
      have same := (s.numbered_control packet).2.1
      have expected := orderly running reads (by simpa using request) number
      cases answers : packet.type.answers with
      | none =>
        simp only [answers] at expected
        exact handleMessage_settles_other expected same answers
      | some type =>
        simp only [answers] at expected
        obtain ⟨request, outstanding, rfl, one⟩ := expected
        exact handleMessage_settles_answer synced same outstanding answers number one
  · refine ⟨s, dfaStateRun_of_not_handled handled, synced, fun _ => .inl ⟨rfl, rfl, rfl, rfl⟩, ?_⟩
    exact fun _ _ _ _ => rfl

theorem dfaStateReset_synced (synced : s.Synced) (packet : ControlPacket) : (s.dfaStateReset packet).Synced := by
  rw [dfaStateReset]
  split
  · exact Synced.of_none rfl
  · exact synced

theorem step_synced {e : Event} (synced : s.Synced) (orderly : s.Orderly e) (h : s.step e = some s') : s'.Synced := by
  rcases step_cases h with ⟨same, -⟩ | ⟨env, action, t, rfl, rfl, free⟩ |
    ⟨packet, env, rfl, receives, executed⟩ | ⟨callback, t, rfl, request, number, -⟩
  · exact synced.congr same.request same.number
  · exact actionExecute_synced free env action
  · cases state : s.state with
    | run =>
      simp only [dfaExecute, state] at executed
      obtain ⟨t, run, settled, -⟩ := dfaStateRun_settles synced state receives.1 orderly
      obtain rfl := some.inj (run.symm.trans executed)
      exact settled
    | reset =>
      simp only [dfaExecute, state, some.injEq] at executed
      exact executed ▸ dfaStateReset_synced synced packet
    | dataCheckToRun | dtlsTeardown =>
      simp only [dfaExecute, state, some.injEq] at executed
      exact executed ▸ synced.congr rfl rfl
  · exact callTimer_synced (synced.congr request number) callback

theorem step_proper {e : Event} (synced : s.Synced) (orderly : s.Orderly e) : s.Proper e := by
  cases e with
  | receive packet env =>
    intro running
    by_cases skipped : !s.reads || s.isRepeated packet
    · exact ⟨s, by rw [step, if_pos skipped], fun _ => .inl ⟨rfl, rfl, rfl, rfl⟩, fun _ _ _ _ => rfl⟩
    · have reads : s.reads := by
        simp only [Bool.or_eq_true, Bool.not_eq_true', not_or, Bool.not_eq_false] at skipped
        exact skipped.1
      obtain ⟨s', run, -, proper⟩ := dfaStateRun_settles synced running reads orderly
      exact ⟨s', by rw [step, if_neg skipped, dfaExecute, running]; exact run, proper⟩
  | _ => trivial

/-- In a run in which every response with the expected number answers the outstanding request, every
step is proper. -/
theorem run_proper {events : List Event} (start : s.requestfragmentpacket = none)
    (orderly : Along step Orderly s events) : Along step Proper s events :=
  orderly.imp (fun _ _ _ synced orderly stepped => step_synced synced orderly stepped)
    (fun _ _ synced orderly => step_proper synced orderly) (Synced.of_none start)

def addWlanEvents : List Event :=
  [.sendAction (.addWlan guestWlan), .execute agreeable,
    .receive { emptyMessage .wlanConfigurationResponse 0 with assignbssid := some ⟨1, 1, 0x20⟩ } agreeable]

theorem run_proper_addWlan : (∃ s', runFrom step started addWlanEvents = some s' ∧ s'.wlans.length = 1) ∧
      Along step Proper started addWlanEvents := by
  refine ⟨⟨_, rfl, by decide⟩, run_proper (s := started) rfl ?_⟩
  refine ⟨trivial, fun t queued => ⟨trivial, fun u sent => ⟨fun _ _ _ _ => ?_, fun _ _ => trivial⟩⟩⟩
  cases queued
  cases sent
  exact ⟨_, rfl, rfl, by decide⟩

/-- A response comes without a request, and a null pointer is read.  A response of another type moves the number past
the request. -/
theorem station_response_without_request :
    runFrom step started [.receive (emptyMessage .stationConfigurationResponse 0) agreeable] = none ∧
      ¬ Along step Proper started [.receive (emptyMessage .stationConfigurationResponse 0) agreeable] ∧
      ∃ s' request, runFrom step started [.sendAction (.addWlan guestWlan), .execute agreeable,
          .receive (emptyMessage .configurationUpdateResponse 0) agreeable] = some s' ∧
        s'.requestfragmentpacket = some request ∧ request.seq = 0 ∧ s'.localseqnumber = 1 := by
  refine ⟨rfl, fun proper => ?_, _, _, rfl, rfl, rfl, rfl⟩
  obtain ⟨s', stepped, -⟩ := proper.1 rfl
  exact absurd (show none = some s' from stepped) (by simp)

end Session

end OpenWifi.AcSession
