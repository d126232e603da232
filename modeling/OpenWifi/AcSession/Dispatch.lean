import OpenWifi.AcSession.Lifecycle
import OpenWifi.CapwapElement.Tiling

/-!
# The elements that the handlers read

All handlers but one look at the type of a message before they read its elements: `ac_dfa_state_datacheck` reads those
of a Change State Event Request whatever the message is.
-/

namespace OpenWifi.AcSession

open CapwapProtocol CapwapElement

variable {ε : Type*} {α β : Type}

def ReadsPresent (x : Except NullRead α) : Prop := ∀ id, x ≠ .error (.element id)

@[simp] theorem readsPresent_ok (a : α) : ReadsPresent (.ok a : Except NullRead α) := fun _ => nofun

@[simp] theorem readsPresent_pure (a : α) : ReadsPresent (pure a : Except NullRead α) := fun _ => nofun

theorem readsPresent_request : ReadsPresent (.error .request : Except NullRead α) := fun _ => nofun

variable {packet : Packet ε}

theorem Packet.read_of_has {id : ElementId} (has : hasElement packet.messages id = true) :
    packet.read id = .ok () := if_pos has

theorem Packet.read_of_not_has {id : ElementId} (has : ¬hasElement packet.messages id = true) :
    packet.read id = .error (.element id) := if_neg has

variable {x : Except NullRead α}

theorem ReadsPresent.bind {f : α → Except NullRead β} (first : ReadsPresent x)
    (rest : ∀ a, ReadsPresent (f a)) : ReadsPresent (x >>= f) := by
  cases x with
  | error e => exact fun id same => first id (congrArg Except.error (Except.error.inj same))
  | ok a => exact rest a

theorem ReadsPresent.read {id : ElementId} {f : Unit → Except NullRead β}
    (has : hasElement packet.messages id = true)
    (rest : ReadsPresent (f ())) : ReadsPresent (packet.read id >>= f) := by
  rw [Packet.read_of_has has]
  exact rest

namespace Life

variable {code : ε → ℕ} {packet : Packet ε} {a : Answers} {s t : Life}

/-! ## The states that handlers leave -/

@[simp] theorem notifyFirst_state (p : NotifyEvent → Bool) (status : EventStatus) (cause : Cause) (s : Life) :
    (s.notifyFirst p status cause).state = s.state := by
  unfold notifyFirst
  split <;> rfl

@[simp] theorem changeState_state (s : Life) (state : SessionState) : (s.changeState state).state = state := by
  unfold changeState
  split
  · exact (‹state = s.state›).symm
  · exact notifyFirst_state _ _ _ _

@[simp] theorem teardown_state (s : Life) : s.teardown.state = .dtlsTeardown := changeState_state _ _

@[simp] theorem notifyMessage_state (code : ε → ℕ) (packet : Packet ε) (s : Life) :
    (s.notifyMessage code packet).state = s.state := by
  simp only [notifyMessage]
  split <;> exact notifyFirst_state _ _ _ _

theorem of_bind_ok {f : α → Except NullRead β} {b : β} (h : x >>= f = .ok b) : ∃ a, x = .ok a ∧ f a = .ok b := by
  cases x with
  | error e => exact absurd h nofun
  | ok a => exact ⟨a, rfl, h⟩

structure SameEvents (s t : Life) : Prop where
  state : t.state = s.state
  notifyevent : t.notifyevent = s.notifyevent
  queued : t.queued = s.queued
  reports : t.reports = s.reports

inductive Decided (s : Life) : Life → Prop
  | goTo {t : Life} (same : s.SameEvents t) {state : SessionState}
      (next : state = .postjoin ∨ state = .dataCheck ∨ state = .dataCheckToRun) : Decided s (t.changeState state)
  | finish {t : Life} (same : s.SameEvents t) : Decided s t.teardown

theorem Decided.state (h : s.Decided t) :
    t.state = .postjoin ∨ t.state = .dataCheck ∨ t.state = .dataCheckToRun ∨ t.state = .dtlsTeardown := by
  cases h with
  | goTo same next => simpa [or_assoc] using Or.inl next
  | finish same => simp

theorem dfaStateJoin_decided (h : s.dfaStateJoin packet a = .ok t) : s.Decided t := by
  obtain ⟨authorized, _, h⟩ := of_bind_ok h
  obtain ⟨success, _, h⟩ := of_bind_ok h
  cases h
  have same : s.SameEvents ((if authorized then { s with binding := packet.binding } else s).saveRemote packet) := by
    split <;> exact ⟨rfl, rfl, rfl, rfl⟩
  split
  · exact .goTo same (.inl rfl)
  · exact .finish same

theorem saveRemote_same (s : Life) (packet : Packet ε) : s.SameEvents (s.saveRemote packet) := ⟨rfl, rfl, rfl, rfl⟩

theorem dfaStateConfigure_decided (h : s.dfaStateConfigure packet a = .ok t) : s.Decided t := by
  obtain ⟨success, _, h⟩ := of_bind_ok h
  cases h
  split
  · exact .goTo (saveRemote_same s packet) (.inr (.inl rfl))
  · exact .finish (saveRemote_same s packet)

theorem dfaStateDatacheck_decided (h : s.dfaStateDatacheck packet a = .ok t) : s.Decided t := by
  obtain ⟨response, _, h⟩ := of_bind_ok h
  cases h
  split
  · exact .goTo (saveRemote_same s packet) (.inr (.inr rfl))
  · exact .finish (saveRemote_same s packet)

theorem runMessage_cases (h : s.runMessage packet a = .ok t) : s.SameEvents t ∨ s.Decided t := by
  unfold runMessage at h
  split at h
  · cases h
    split
    · exact .inl ⟨rfl, rfl, rfl, rfl⟩
    · exact .inr (.finish ⟨rfl, rfl, rfl, rfl⟩)
  · obtain ⟨_, _, h⟩ := of_bind_ok h
    cases h
    exact .inl ⟨rfl, rfl, rfl, rfl⟩
  · obtain ⟨_, _, h⟩ := of_bind_ok h
    cases h
    exact .inl ⟨rfl, rfl, rfl, rfl⟩
  · cases h
    exact .inl ⟨rfl, rfl, rfl, rfl⟩

theorem SameEvents.trans {u : Life} (h : s.SameEvents t) (h' : t.SameEvents u) : s.SameEvents u :=
  ⟨h'.state.trans h.state, h'.notifyevent.trans h.notifyevent, h'.queued.trans h.queued, h'.reports.trans h.reports⟩

theorem Decided.of_same {u : Life} (same : s.SameEvents t) (h : t.Decided u) : s.Decided u := by
  cases h with
  | goTo same' next => exact .goTo (same.trans same') next
  | finish same' => exact .finish (same.trans same')

theorem dfaStateRun_cases (h : s.dfaStateRun packet a = .ok t) : s.SameEvents t ∨ s.Decided t := by
  unfold dfaStateRun at h
  split at h
  · exact runMessage_cases h
  · split at h
    · have counted : s.SameEvents { s with localseqnumber := (s.localseqnumber + 1) % 256 } := ⟨rfl, rfl, rfl, rfl⟩
      exact (runMessage_cases h).imp counted.trans (.of_same counted)
    · cases h
      exact .inl ⟨rfl, rfl, rfl, rfl⟩

/-- All that a handler can do: leave the state and the events as they are, or, possibly by way of the state of the
configuration or of the image, decide how the handshake goes on. -/
theorem dfaExecute_cases (h : s.dfaExecute packet a = .ok t) :
    s.SameEvents t ∨ s.Decided t ∨ (s.changeState .configure).Decided t ∨ (s.changeState .imageData).Decided t := by
  unfold dfaExecute at h
  split at h
  case h_1 => exact .inr (.inl (dfaStateJoin_decided h))
  case h_2 =>
    unfold dfaStatePostjoin at h
    split at h
    · exact .inr (.inr (.inl (dfaStateConfigure_decided h)))
    · cases h
      exact .inr (.inr (.inr (.finish ⟨rfl, rfl, rfl, rfl⟩)))
    · cases h
      exact .inr (.inl (.finish ⟨rfl, rfl, rfl, rfl⟩))
  case h_3 =>
    cases h
    exact .inr (.inl (.finish ⟨rfl, rfl, rfl, rfl⟩))
  case h_4 => exact .inr (.inl (dfaStateConfigure_decided h))
  case h_5 =>
    cases h
    unfold dfaStateReset
    split
    · exact .inr (.inl (.finish ⟨rfl, rfl, rfl, rfl⟩))
    · exact .inl ⟨rfl, rfl, rfl, rfl⟩
  case h_6 => exact .inr (.inl (dfaStateDatacheck_decided h))
  case h_7 => exact (dfaStateRun_cases h).imp_right .inl
  case h_8 =>
    cases h
    exact .inr (.inl (.finish ⟨rfl, rfl, rfl, rfl⟩))

theorem dfaExecute_state (h : s.dfaExecute packet a = .ok t) (state : s.state ≠ .configure) : t.state ≠ .configure := by
  rcases dfaExecute_cases h with same | decided | decided | decided
  · rw [same.state]
    exact state
  all_goals rcases decided.state with h | h | h | h <;> simp [h]

theorem toOption_eq_some {b : α} (h : x.toOption = some b) : x = .ok b := by
  cases x with
  | error e => exact absurd h nofun
  | ok c => exact congrArg Except.ok (Option.some.inj h)

inductive Turn (code : ε → ℕ) (s : Life) : Event ε → Life → Prop
  | stay {e : Event ε} : Turn code s e s
  | queue {event : NotifyEvent} (loops : s.loops = true) :
      Turn code s (.notifyEvent event)
        { s with notifyevent := s.notifyevent ++ [event], queued := s.queued ++ [event] }
  | enter {e : Event ε} {state : SessionState}
      (alive : state ≠ .configure ∧ state ≠ .dtlsTeardown ∧ state ≠ .dead) : Turn code s e (s.changeState state)
  | finish {e : Event ε} : Turn code s e s.teardown
  | handle {packet : Packet ε} {a : Answers} {t : Life}
      (executed : (s.notifyMessage code packet).dfaExecute packet a = .ok t)
      (fresh : s.repeats packet = false)
      (valid : validateParsedPacket code packet.binding packet.type packet.messages = true) :
      Turn code s (.message packet a) t
  | leave (ended : s.state = .dtlsTeardown) : Turn code s .leave (s.changeState .dead)

theorem turn_of_step {e : Event ε} (next : s.step code e = some t) : Turn code s e t := by
  cases e with
  | begin enabledtls setup =>
    simp only [step] at next
    split_ifs at next <;> cases next
    · exact .stay
    · exact .enter (by decide)
    · exact .enter (by decide)
    · exact .finish
  | handshake =>
    cases next
    split_ifs
    · exact .enter (by decide)
    · exact .stay
  | notifyEvent event =>
    cases next
    split_ifs with loops
    · exact .queue loops
    · exact .stay
  | resetWtp sent | recvKeepalive running =>
    cases next
    split_ifs
    · exact .enter (by decide)
    · exact .finish
    · exact .stay
  | teardown =>
    cases next
    split_ifs
    · exact .finish
    · exact .stay
  | message packet a =>
    simp only [step] at next
    split at next
    next handled =>
      simp only [Bool.and_eq_true, Bool.not_eq_true'] at handled
      exact .handle (toOption_eq_some next) handled.1.2 handled.2
    · cases next
      exact .stay
  | leave =>
    cases next
    split_ifs with ended
    · exact .leave ended
    · exact .stay

theorem step_state {e : Event ε} (next : s.step code e = some t) (state : s.state ≠ .configure) :
    t.state ≠ .configure := by
  cases turn_of_step next with
  | stay => exact state
  | queue loops => exact state
  | enter alive => simpa using alive.1
  | finish => simp
  | handle executed => exact dfaExecute_state executed (by simpa using state)
  | leave ended => simp

theorem run_state {events : List (Event ε)} (run : runFrom (step code) created events = some s) :
    s.state ≠ .configure :=
  runFrom_invariant (fun _ _ _ state next => step_state next state) (by decide) run

section

variable (valid : validateParsedPacket code packet.binding packet.type packet.messages = true)
include valid

theorem dfaStateJoin_readsPresent : ReadsPresent (s.dfaStateJoin packet a) := by
  by_cases join : packet.type = .joinRequest
  case neg =>
    have refused : joinAuthorize packet a = .ok false := by simp [joinAuthorize, join]
    simp only [dfaStateJoin, refused]
    exact readsPresent_pure _
  case pos =>
    simp only [join, validateParsedPacket, Bool.and_eq_true, Bool.or_eq_true, decide_eq_true_eq] at valid
    obtain ⟨⟨⟨⟨⟨⟨⟨⟨⟨location, boarddata⟩, descriptor⟩, name⟩, sessionid⟩, tunnelmode⟩, mactype⟩, ecnsupport⟩, _⟩,
      radio⟩ := valid
    have authorize : ReadsPresent (joinAuthorize packet a) := by
      unfold joinAuthorize
      split
      · exact readsPresent_ok _
      · refine .read sessionid ?_
        split
        · exact readsPresent_pure _
        · exact .read boarddata (readsPresent_pure _)
    have request : ReadsPresent (joinParsingRequest packet a) := by
      refine .read location (.read boarddata (.read descriptor (.read name (.read tunnelmode (.read mactype ?_)))))
      split
      · exact readsPresent_pure _
      · exact .read ecnsupport (readsPresent_pure _)
    have response : ∀ json, ReadsPresent (joinCreateResponse packet json) := by
      intro json
      unfold joinCreateResponse
      split
      · exact readsPresent_pure _
      · split
        · exact .read (radio.resolve_left (by simpa using ‹packet.binding = 1›)) (readsPresent_pure _)
        · exact readsPresent_pure _
    have result : ∀ authorized, ReadsPresent (joinResult packet a authorized) := by
      intro authorized
      unfold joinResult
      split
      · exact readsPresent_pure _
      · refine request.bind fun answer => ?_
        cases answer with
        | none => exact readsPresent_pure _
        | some json => exact response json
    exact authorize.bind fun authorized => (result authorized).bind fun _ => readsPresent_pure _

theorem dfaStatePostjoin_readsPresent : ReadsPresent (s.dfaStatePostjoin packet a) := by
  unfold dfaStatePostjoin
  split
  case h_1 configuration =>
    simp only [configuration, validateParsedPacket, Bool.and_eq_true] at valid
    obtain ⟨⟨⟨⟨_, radioadmstate⟩, statisticstimer⟩, rebootstat⟩, _⟩ := valid
    have request : ReadsPresent (configureParsingRequest packet a) := by
      refine .read radioadmstate (.read statisticstimer (.read rebootstat ?_))
      split <;> exact readsPresent_pure _
    have result : ReadsPresent (configureResult packet a) := by
      refine request.bind fun answer => ?_
      cases answer with
      | none => exact readsPresent_pure _
      | some json =>
        simp only [configureCreateResponse]
        split
        · exact readsPresent_pure _
        · exact .read radioadmstate (readsPresent_pure _)
    exact result.bind fun _ => readsPresent_pure _
  case h_2 => exact readsPresent_ok _
  case h_3 => exact readsPresent_ok _

theorem runMessage_readsPresent : ReadsPresent (s.runMessage packet a) := by
  unfold runMessage
  split
  case h_1 => exact readsPresent_ok _
  case h_2 station =>
    simp only [station, validateParsedPacket] at valid
    refine .bind ?_ fun _ => readsPresent_pure _
    unfold receiveStationConfigurationResponse
    split
    · exact readsPresent_request
    · split
      · rw [Packet.read_of_has valid]
        exact readsPresent_ok _
      · exact readsPresent_ok _
  case h_3 wlan =>
    simp only [wlan, validateParsedPacket] at valid
    exact .read valid (readsPresent_pure _)
  case h_4 => exact readsPresent_ok _

theorem dfaStateRun_readsPresent : ReadsPresent (s.dfaStateRun packet a) := by
  unfold dfaStateRun
  split
  · exact runMessage_readsPresent valid
  · split
    · exact runMessage_readsPresent valid
    · exact readsPresent_ok _

end

theorem dfaStateDatacheck_readsPresent_iff : ReadsPresent (s.dfaStateDatacheck packet a) ↔
      hasElement packet.messages .radiooprstate = true ∧ hasElement packet.messages .resultcode = true := by
  constructor
  · intro present
    by_contra missing
    by_cases radio : hasElement packet.messages .radiooprstate = true
    · have result : ¬hasElement packet.messages .resultcode = true := fun has => missing ⟨radio, has⟩
      refine present .resultcode ?_
      simp only [dfaStateDatacheck, datacheckParsingRequest, Packet.read_of_has radio, Packet.read_of_not_has result]
      rfl
    · refine present .radiooprstate ?_
      simp only [dfaStateDatacheck, datacheckParsingRequest, Packet.read_of_not_has radio]
      rfl
  · rintro ⟨radio, result⟩
    refine .bind (.read radio (.read result ?_)) fun _ => readsPresent_pure _
    split <;> exact readsPresent_pure _

/-- The handler reads only elements that are there, but for the data check, where the message has to have the elements
of a Change State Event Request. -/
theorem dfaExecute_reads_iff {reg : Registry ε} {events : List (Event ε)} {junk : ElementId} {rx : PacketRxmng}
    {type : MessageType} {parsed : ParseState ε} (run : runFrom (step code) created events = some s)
    (_complete : parsingPacket reg rx.binding junk rx = some (.ok (), parsed))
    (_type : MessageType.ofNumber rx.ctrlmsg.type = some type)
    (valid : validateParsedPacket code rx.binding type parsed.messages = true) (a : Answers) :
    ReadsPresent (s.dfaExecute ⟨type, rx.ctrlmsg.seq, rx.binding, parsed.messages⟩ a) ↔ (s.state = .dataCheck →
        hasElement parsed.messages .radiooprstate = true ∧ hasElement parsed.messages .resultcode = true) := by
  set packet : Packet ε := ⟨type, rx.ctrlmsg.seq, rx.binding, parsed.messages⟩
  have configure := run_state run
  unfold dfaExecute
  split
  case h_6 state =>
    rw [dfaStateDatacheck_readsPresent_iff]
    exact ⟨fun has _ => has, fun has => has state⟩
  case h_1 state => exact iff_of_true (dfaStateJoin_readsPresent valid) (by simp [state])
  case h_2 state => exact iff_of_true (dfaStatePostjoin_readsPresent valid) (by simp [state])
  case h_3 state => exact iff_of_true (readsPresent_ok _) (by simp [state])
  case h_4 state => exact absurd state configure
  case h_5 state => exact iff_of_true (readsPresent_ok _) (by simp [state])
  case h_7 state => exact iff_of_true (dfaStateRun_readsPresent valid) (by simp [state])
  case h_8 => exact iff_of_true (readsPresent_ok _) fun state => absurd state ‹s.state = .dataCheck → False›

/-! ## An Echo Request -/

def consenting : Answers where
  validBinding := true
  hasSessionid := false
  freeWtpid := true
  authorized := true
  radios := true
  response := some true
  sent := true
  datasession := true
  validSession := true
  request := true
  station := false

def messageWith (type : MessageType) (ids : List ElementId) : Packet ℕ :=
  ⟨type, 0, 1, ids.map fun id => ⟨id, .single, [0]⟩⟩

def joinAndConfigure : List (Event ℕ) :=
  [.begin false true, .message (messageWith .joinRequest
      [.location, .wtpboarddata, .wtpdescriptor, .wtpname, .sessionid, .wtpframetunnelmode, .wtpmactype, .ecnsupport,
        .localipv4, .wtpradioinformation80211]) consenting,
    .message (messageWith .configurationStatusRequest
      [.acname, .radioadmstate, .statisticstimer, .wtprebootstat, .wtpradioinformation80211]) consenting]

def echoMessage : PacketRxmng :=
  { rxmngCreateMessage with fragmentlist := [[0, 16, 2, 0, 0, 0, 0, 0, 0, 0, 0, 13, 1, 0, 3, 0]] }

theorem parsingPacket_echoMessage : ∃ rx parsed, echoMessage.complete = some rx ∧
    parsingPacket resultcodes rx.binding ⟨0, 0⟩ rx = some (.ok (), parsed) ∧ parsed.messages = [] ∧
      MessageType.ofNumber rx.ctrlmsg.type = some .echoRequest := by
  have run : (echoMessage.complete.bind fun rx => (parsingPacket resultcodes rx.binding ⟨0, 0⟩ rx).map fun r =>
      (r.1, r.2.messages, MessageType.ofNumber rx.ctrlmsg.type)) = some (.ok (), [], some .echoRequest) := by
    decide +kernel
  obtain ⟨rx, complete, parse⟩ := Option.bind_eq_some_iff.1 run
  obtain ⟨⟨result, parsed⟩, parse, same⟩ := Option.map_eq_some_iff.1 parse
  simp only [Prod.mk.injEq] at same
  obtain ⟨rfl, messages, type⟩ := same
  exact ⟨rx, parsed, complete, parse, messages, type⟩

def lengths : Registry ℕ where
  ops _ := some ⟨.single, .ready fun n => .block n fun bytes => .done bytes.length⟩
  payload := ⟨.single, .ready fun n => .block n fun bytes => .done bytes.length⟩
  ops_vendorpayload := rfl
  unknownVendor n _ := .block n fun bytes => .done bytes.length

def messageOf (type : UInt8) (ids : List ElementId) : PacketRxmng :=
  { rxmngCreateMessage with
    fragmentlist := [[0, 16, 2, 0, 0, 0, 0, 0, 0, 0, 0, type, 1] ++ be16 (ids.length * 5 + 3) ++ [0] ++
      ids.flatMap fun id => be16 id.type ++ be16 1 ++ [0]] }

/-- In the data check a Change State Event Request has both elements that the handler reads. -/
theorem dfaExecute_reads_iff_dataCheck : ∃ s rx parsed,
    runFrom (step id) created joinAndConfigure = some s ∧ s.state = .dataCheck ∧
      (messageOf 11 [.radiooprstate, .resultcode]).complete = some rx ∧
      parsingPacket lengths rx.binding ⟨0, 0⟩ rx = some (.ok (), parsed) ∧
      validateParsedPacket id rx.binding .changeStateEventRequest parsed.messages = true ∧
      ReadsPresent (s.dfaExecute ⟨.changeStateEventRequest, rx.ctrlmsg.seq, rx.binding, parsed.messages⟩
        consenting) := by
  have known : ((messageOf 11 [.radiooprstate, .resultcode]).complete.bind fun rx =>
      (parsingPacket lengths rx.binding ⟨0, 0⟩ rx).map fun r => (r.1, MessageType.ofNumber rx.ctrlmsg.type,
        validateParsedPacket id rx.binding .changeStateEventRequest r.2.messages,
        hasElement r.2.messages .radiooprstate && hasElement r.2.messages .resultcode)) =
      some (.ok (), some .changeStateEventRequest, true, true) := by decide +kernel
  obtain ⟨rx, complete, parse⟩ := Option.bind_eq_some_iff.1 known
  obtain ⟨⟨result, parsed⟩, parse, same⟩ := Option.map_eq_some_iff.1 parse
  simp only [Prod.mk.injEq, Bool.and_eq_true] at same
  obtain ⟨rfl, type, valid, both⟩ := same
  obtain ⟨s, run, state⟩ : ∃ s, runFrom (step id) created joinAndConfigure = some s ∧ s.state = .dataCheck :=
    ⟨_, rfl, by decide +kernel⟩
  refine ⟨s, rx, parsed, run, state, complete, parse, valid, ?_⟩
  exact (dfaExecute_reads_iff run parse type valid consenting).2 fun _ => both

/-- In the data check an Echo Request makes the handler read the Radio Operational State of the message, which has
none. -/
theorem echo_reads_null : ∃ s rx parsed,
    runFrom (step id) created joinAndConfigure = some s ∧ s.state = .dataCheck ∧ echoMessage.complete = some rx ∧
      parsingPacket resultcodes rx.binding ⟨0, 0⟩ rx = some (.ok (), parsed) ∧
      checkMessageType rx = .validMessageType ∧ MessageType.ofNumber rx.ctrlmsg.type = some .echoRequest ∧
      validateParsedPacket id rx.binding .echoRequest parsed.messages = true ∧
      s.dfaExecute ⟨.echoRequest, rx.ctrlmsg.seq, rx.binding, parsed.messages⟩ consenting =
        .error (.element .radiooprstate) := by
  obtain ⟨rx, parsed, complete, parse, messages, type⟩ := parsingPacket_echoMessage
  refine ⟨_, rx, parsed, rfl, by decide +kernel, complete, parse, ?_, type, rfl, ?_⟩
  · have checked : echoMessage.complete.map checkMessageType = some .validMessageType := by decide +kernel
    rw [complete] at checked
    exact Option.some.inj checked
  · rw [messages]
    rfl

end Life

end OpenWifi.AcSession
