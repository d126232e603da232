import OpenWifi.AcSession.Dispatch
import OpenWifi.CapwapElement.Ownership

/-!
# What the session loop frees

`ac_session_run` applies `capwap_free_parsed_packet` to the local `packet` after every complete message, but
`capwap_parsing_packet` is not called when a request comes again or the type is not valid (`freed_without_parsing`).
-/

namespace OpenWifi.AcSession

open List Option CapwapProtocol CapwapElement

variable {ε : Type*}

/-- A call of `capwap_free_parsed_packet`: whether the packet was made from the message, its elements, and those that
are freed. -/
structure Disposal (ε : Type*) where
  initialised : Bool
  parsed : List ε
  freed : List ε
  deriving DecidableEq

structure Disposal.Right (d : Disposal ε) : Prop where
  initialised : d.initialised = true
  freed : d.freed.Perm d.parsed

structure Arrival (ε : Type*) where
  rx : PacketRxmng
  /-- What is in the uninitialised `vendor_id` of `capwap_parsing_packet`. -/
  junk : ElementId
  /-- What is in the uninitialised `packet` of `ac_session_run`. -/
  packet : ParsedPacket ε
  answers : Answers
  /-- The last request, which two of the handlers parse again, with what is in `vendor_id` then. -/
  request : Option (PacketRxmng × ElementId)

def Life.isRepeated (s : Life) (rx : PacketRxmng) : Bool :=
  (MessageType.ofNumber rx.ctrlmsg.type).any (·.isRequest) && s.remotetype = rx.ctrlmsg.type &&
    s.remoteseqnumber = rx.ctrlmsg.seq

/-- The message makes a handler parse the last request again. -/
def Life.parsesRequest (code : ε → ℕ) (s : Life) (packet : Packet ε) : Bool :=
  validateParsedPacket code packet.binding packet.type packet.messages && s.state = .run &&
    s.localseqnumber = packet.seq &&
      match packet.type with
      | .stationConfigurationResponse => true
      | .wlanConfigurationResponse => (resultcodeOf code packet.messages).any resultcodeOk
      | _ => false

def disposalOf (rx : PacketRxmng) (parsed : ParseState ε) : Disposal ε :=
  ⟨true, parsed.elements.map (·.element), freeParsedPacket ⟨some rx, some parsed.messages⟩⟩

structure Owner (ε : Type*) where
  life : Life
  disposals : List (Disposal ε)

namespace Owner

def execute (reg : Registry ε) (code : ε → ℕ) (s : Life) (packet : Packet ε) (m : Arrival ε) :
    Option (Life × List (Disposal ε)) :=
  (s.step code (.message packet { m.answers with request := m.request.isSome })).bind fun life =>
    match m.request with
    | some (rx, junk) =>
      if s.parsesRequest code packet then
        (parsingPacket reg rx.binding junk rx).map fun r => (life, [disposalOf rx r.2])
      else some (life, [])
    | none => some (life, [])

def handle (reg : Registry ε) (code : ε → ℕ) (s : Owner ε) (type : MessageType) (m : Arrival ε) : Option (Owner ε) :=
  (parsingPacket reg m.rx.binding m.junk m.rx).bind fun
  | (.error _, parsed) => some { s with disposals := s.disposals ++ [disposalOf m.rx parsed] }
  | (.ok (), parsed) =>
    (execute reg code s.life ⟨type, m.rx.ctrlmsg.seq, m.rx.binding, parsed.messages⟩ m).map fun (life, again) =>
      ⟨life, s.disposals ++ (again ++ [disposalOf m.rx parsed])⟩

inductive Input (ε : Type*)
  | message (m : Arrival ε)
  | other (e : Life.Event ε)

/-- One turn of `ac_session_run`. -/
def step (reg : Registry ε) (code : ε → ℕ) (s : Owner ε) : Input ε → Option (Owner ε)
  | .message m =>
    if !s.life.loops then some s
    else if s.life.isRepeated m.rx then
      some { s with disposals := s.disposals ++ [⟨false, [], freeParsedPacket m.packet⟩] }
    else
      match checkMessageType m.rx with
      | .validMessageType => (MessageType.ofNumber m.rx.ctrlmsg.type).bind fun type => s.handle reg code type m
      | _ => some { s with disposals := s.disposals ++ [⟨false, [], freeParsedPacket m.packet⟩] }
  | .other (.message _ _) => some s
  | .other e => (s.life.step code e).map fun life => { s with life := life }

/-- `ac_create_session`. -/
def created : Owner ε := ⟨.created, []⟩

structure Fair (reg : Registry ε) (rx : PacketRxmng) (junk : ElementId) : Prop where
  received : Received rx
  oneOfAKind : ∀ result parsed, parsingPacket reg rx.binding junk rx = some (result, parsed) →
    reg.OneOfAKind junk rx parsed.elements.length

def Owned (reg : Registry ε) (code : ε → ℕ) (s : Owner ε) : Input ε → Prop
  | .message m =>
    s.life.isRepeated m.rx = false ∧ checkMessageType m.rx = .validMessageType ∧ Fair reg m.rx m.junk ∧
      ∀ type parsed, parsingPacket reg m.rx.binding m.junk m.rx = some (.ok (), parsed) →
        s.life.parsesRequest code ⟨type, m.rx.ctrlmsg.seq, m.rx.binding, parsed.messages⟩ →
        ∀ rx junk, m.request = some (rx, junk) → Fair reg rx junk
  | .other _ => True

variable {reg : Registry ε} {code : ε → ℕ} {s t : Owner ε} {m : Arrival ε} {rx : PacketRxmng} {junk : ElementId}

theorem Fair.right (fair : Fair reg rx junk) {result : Except ParsingError Unit} {parsed : ParseState ε}
    (h : parsingPacket reg rx.binding junk rx = some (result, parsed)) : (disposalOf rx parsed).Right :=
  ⟨rfl, freed_perm fair.received (fair.oneOfAKind _ _ h) h⟩

theorem right_of_execute {life life' : Life} {packet : Packet ε} {again : List (Disposal ε)}
    (fair : life.parsesRequest code packet → ∀ rx junk, m.request = some (rx, junk) → Fair reg rx junk)
    (h : execute reg code life packet m = some (life', again)) : ∀ d ∈ again, d.Right := by
  unfold execute at h
  obtain ⟨life₁, -, h⟩ := bind_eq_some_iff.1 h
  cases last : m.request with
  | none =>
    rw [last] at h
    cases h
    simp
  | some request =>
    obtain ⟨rx, junk⟩ := request
    rw [last] at h
    dsimp only at h
    split at h
    next parses =>
      obtain ⟨⟨result, parsed⟩, parse, eq⟩ := map_eq_some_iff.1 h
      cases eq
      simpa using (fair parses rx junk last).right parse
    · cases h
      simp

theorem right_of_handle {type : MessageType} (fair : Fair reg m.rx m.junk)
    (last : ∀ parsed, parsingPacket reg m.rx.binding m.junk m.rx = some (.ok (), parsed) →
      s.life.parsesRequest code ⟨type, m.rx.ctrlmsg.seq, m.rx.binding, parsed.messages⟩ →
      ∀ rx junk, m.request = some (rx, junk) → Fair reg rx junk) (right : ∀ d ∈ s.disposals, d.Right)
    (h : s.handle reg code type m = some t) : ∀ d ∈ t.disposals, d.Right := by
  unfold handle at h
  obtain ⟨⟨result, parsed⟩, parse, h⟩ := bind_eq_some_iff.1 h
  have this : (disposalOf m.rx parsed).Right := fair.right parse
  cases result with
  | error e =>
    cases h
    exact forall_mem_append.2 ⟨right, forall_mem_singleton.2 this⟩
  | ok _ =>
    obtain ⟨⟨life, again⟩, executed, rfl⟩ := map_eq_some_iff.1 h
    have handled := right_of_execute (last parsed parse) executed
    exact forall_mem_append.2 ⟨right, forall_mem_append.2 ⟨handled, forall_mem_singleton.2 this⟩⟩

theorem disposals_of_other {e : Life.Event ε} (next : s.step reg code (.other e) = some t) :
    t.disposals = s.disposals := by
  cases e with
  | message packet a =>
    cases next
    rfl
  | _ =>
    simp only [step, map_eq_some_iff] at next
    obtain ⟨life, -, rfl⟩ := next
    rfl

theorem right_of_step {i : Input ε} (right : ∀ d ∈ s.disposals, d.Right) (owned : s.Owned reg code i)
    (next : s.step reg code i = some t) : ∀ d ∈ t.disposals, d.Right := by
  cases i with
  | other e => rwa [disposals_of_other next]
  | message m =>
    obtain ⟨fresh, valid, fair, last⟩ := owned
    rw [step] at next
    split at next
    · cases next
      exact right
    · rw [fresh, if_neg (by simp), valid] at next
      obtain ⟨type, -, handled⟩ := bind_eq_some_iff.1 next
      exact right_of_handle fair (last type) right handled

/-- In every run whose messages are not repeated requests, have valid types and have no element of a kind twice, each
element of a packet is freed once. -/
theorem run_freed {inputs : List (Input ε)} (owned : Along (step reg code) (Owned reg code) created inputs)
    (run : runFrom (step reg code) created inputs = some s) : ∀ d ∈ s.disposals, d.Right :=
  owned.invariant (fun _ _ _ right owned next => right_of_step right owned next) (by simp [created]) run

def arrivalOf (rx : PacketRxmng) : Arrival ℕ :=
  { rx := rx
    junk := ⟨0, 0⟩
    packet := ⟨some rxmngCreateMessage, some [⟨.resultcode, .single, [9]⟩]⟩
    answers := Life.consenting
    request := none }

def joinElements : List ElementId :=
  [.location, .wtpboarddata, .wtpdescriptor, .wtpname, .sessionid, .wtpframetunnelmode, .wtpmactype, .ecnsupport,
    .localipv4, .wtpradioinformation80211]

/-- A Join Request is parsed and all its elements are freed. -/
theorem run_freed_join : ∃ rx s, (Life.messageOf 3 joinElements).complete = some rx ∧
    runFrom (step Life.lengths fun _ => 0) created [.other (.begin false true), .message (arrivalOf rx)] = some s ∧
    s.disposals.map Disposal.parsed = [List.replicate 10 1] ∧ ∀ d ∈ s.disposals, d.Right := by
  have run : ((Life.messageOf 3 joinElements).complete.bind fun rx => (runFrom (step Life.lengths fun _ => 0) created
      [.other (.begin false true), .message (arrivalOf rx)]).map fun s => (s.disposals.map Disposal.parsed,
        checkMessageType rx, Life.lengths.elementIds ⟨0, 0⟩ rx.readbodypos.stream.length rx.readbodypos.stream,
        rx.ctrlmsg.type)) =
      some ([List.replicate 10 1], .validMessageType, joinElements, 3) := by decide +kernel
  obtain ⟨rx, complete, run⟩ := bind_eq_some_iff.1 run
  obtain ⟨s, run, same⟩ := map_eq_some_iff.1 run
  simp only [Prod.mk.injEq] at same
  obtain ⟨disposals, valid, ids, type⟩ := same
  have received : Received rx := ⟨Life.messageOf 3 joinElements, by decide, by decide, by decide, complete⟩
  have oneOfAKind (reached : ℕ) : Life.lengths.OneOfAKind ⟨0, 0⟩ rx reached := by
    intro id _
    rw [ids]
    exact ((take_sublist _ _).count_le id).trans (nodup_iff_count_le_one.1 (by decide) id)
  have owned : Along (step Life.lengths fun _ => 0) (Owned Life.lengths fun _ => 0) created
      [.other (.begin false true), .message (arrivalOf rx)] := by
    refine ⟨trivial, fun t first => ⟨⟨?_, valid, ⟨received, fun _ _ _ => oneOfAKind _⟩, by simp [arrivalOf]⟩,
      fun _ _ => trivial⟩⟩
    cases first
    show Life.isRepeated _ rx = false
    simp [Life.isRepeated, type, Life.created, Life.changeState, Life.notifyFirst, created]
  exact ⟨rx, s, complete, run, disposals, run_freed owned run⟩

/-- The local is freed when a request comes again and when the type is not valid, and the second of two Result Codes is
not freed. -/
theorem freed_without_parsing : ∃ join invalid twice s, (Life.messageOf 3 joinElements).complete = some join ∧
    (Life.messageOf 27 []).complete = some invalid ∧
    (Life.messageOf 13 [.resultcode, .resultcode]).complete = some twice ∧
    runFrom (step Life.lengths fun _ => 0) created [.other (.begin false true), .message (arrivalOf join),
      .message (arrivalOf join), .message (arrivalOf invalid), .message (arrivalOf twice)] = some s ∧
    s.disposals = [⟨true, List.replicate 10 1, List.replicate 10 1⟩, ⟨false, [], [9]⟩, ⟨false, [], [9]⟩,
      ⟨true, [1, 1], [1]⟩] := by
  have run : ((Life.messageOf 3 joinElements).complete.bind fun join =>
      (Life.messageOf 27 []).complete.bind fun invalid =>
      (Life.messageOf 13 [.resultcode, .resultcode]).complete.bind fun twice =>
        (runFrom (step Life.lengths fun _ => 0) created [.other (.begin false true), .message (arrivalOf join),
          .message (arrivalOf join), .message (arrivalOf invalid), .message (arrivalOf twice)]).map Owner.disposals) =
      some [⟨true, List.replicate 10 1, List.replicate 10 1⟩, ⟨false, [], [9]⟩, ⟨false, [], [9]⟩,
        ⟨true, [1, 1], [1]⟩] := by decide +kernel
  obtain ⟨join, joins, run⟩ := bind_eq_some_iff.1 run
  obtain ⟨invalid, wrong, run⟩ := bind_eq_some_iff.1 run
  obtain ⟨twice, two, run⟩ := bind_eq_some_iff.1 run
  obtain ⟨s, run, disposals⟩ := map_eq_some_iff.1 run
  exact ⟨join, invalid, twice, s, joins, wrong, two, run, disposals⟩

end Owner

end OpenWifi.AcSession
