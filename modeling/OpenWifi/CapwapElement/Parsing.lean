import OpenWifi.CapwapProtocol.Reading

/-!
# Parsing a control message

`capwap_parsing_packet` of `capwap_element.c`.  What an element is and how it is parsed is a parameter: a
parser is any program that reads with the functions of `capwap_protocol.c`.
-/

namespace OpenWifi.CapwapElement

open CapwapProtocol

/-- `struct capwap_message_element_id`. -/
structure ElementId where
  vendor : ℕ
  type : ℕ
  deriving DecidableEq

/-- `CAPWAP_MESSAGE_ELEMENT_SINGLE` and `CAPWAP_MESSAGE_ELEMENT_ARRAY`. -/
inductive Category
  | single | array
  deriving DecidableEq

/-- `CAPWAP_ELEMENT_VENDORPAYLOAD`. -/
def vendorpayload : ElementId := ⟨0, 37⟩

/-- `IS_80211_MESSAGE_ELEMENTS`. -/
def ElementId.Is80211 (id : ElementId) : Prop := id.vendor = 0 ∧ 1024 ≤ id.type ∧ id.type ≤ 1048

instance (id : ElementId) : Decidable id.Is80211 := inferInstanceAs (Decidable (_ ∧ _ ∧ _))

/-- `struct capwap_message_elements_ops`, as far as parsing uses it. -/
structure ElementOps (ε : Type*) where
  category : Category
  parse : Reader ε

/-- The tables of elements: `ops` is `capwap_get_message_element_ops`, and `unknownVendor` is
`capwap_unknown_vendorpayload_element_parsing`, which gets the length of the payload and its id. -/
structure Registry (ε : Type*) where
  ops : ElementId → Option (ElementOps ε)
  payload : ElementOps ε
  ops_vendorpayload : ops vendorpayload = some payload
  unknownVendor : ℕ → ElementId → Reader ε

/-- `struct capwap_message_element_itemlist`, with all the elements of an array. -/
structure MessageElement (ε : Type*) where
  id : ElementId
  category : Category
  data : List ε
  deriving DecidableEq

structure Parsed (ε : Type*) where
  id : ElementId
  category : Category
  element : ε
  deriving DecidableEq

/-- `UNRECOGNIZED_MESSAGE_ELEMENT` and `INVALID_MESSAGE_ELEMENT`; `PARSING_COMPLETE` is no error. -/
inductive ParsingError
  | unrecognizedMessageElement | invalidMessageElement
  deriving DecidableEq

variable {ε : Type*}

/-- `capwap_get_message_element`. -/
def getMessageElement (messages : List (MessageElement ε)) (id : ElementId) : Option (MessageElement ε) :=
  messages.find? (·.id = id)

/-- The element goes into `packet->messages`; `none` when it is one of a kind and the kind is there. -/
def addElement (messages : List (MessageElement ε)) (p : Parsed ε) : Option (List (MessageElement ε)) :=
  match getMessageElement messages p.id with
  | none => some (messages ++ [⟨p.id, p.category, [p.element]⟩])
  | some _ =>
    match p.category with
    | .single => none
    | .array => some (messages.map fun m => if m.id = p.id then { m with data := m.data ++ [p.element] } else m)

/-- What `capwap_parsing_packet` works on: the message, `packet->messages`, and the elements so far, which the source
does not keep. -/
structure ParseState (ε : Type*) where
  rx : PacketRxmng
  messages : List (MessageElement ε)
  elements : List (Parsed ε)

variable (reg : Registry ε)

/-- The parser for an element of the type: its id, category and program, with the id of a vendor read from
the message.  `junk` is what is in the uninitialised `vendor_id`. -/
def selectParser (junk : ElementId) (type msglength : ℕ) (rx : PacketRxmng) :
    Option (Except ParsingError (ElementId × Category × Reader ε) × PacketRxmng) :=
  if type = vendorpayload.type then
    if msglength < 7 then some (.error .invalidMessageElement, rx)
    else if 2048 < msglength - 6 then some (.error .invalidMessageElement, rx)
    else
      (rx.readNumber 4).bind fun (vendor, rx) =>
      (rx.readNumber 2).bind fun (vendorType, rx) =>
        let vendorId : ElementId := ⟨vendor.getD junk.vendor, vendorType.getD junk.type⟩
        match reg.ops vendorId with
        | some ops => some (.ok (vendorId, ops.category, ops.parse), rx)
        | none => some (.ok (vendorpayload, reg.payload.category, reg.unknownVendor (msglength - 6) vendorId), rx)
  else
    match reg.ops ⟨0, type⟩ with
    | some ops => some (.ok (⟨0, type⟩, ops.category, ops.parse), rx)
    | none => some (.error .unrecognizedMessageElement, rx)

/-- The part of the loop of `capwap_parsing_packet` that parses the value of an element and keeps it. -/
def parseValue (id : ElementId) (category : Category) (reader : Reader ε) (s : ParseState ε) :
    Option (Option ParsingError × ParseState ε) :=
  (s.rx.runReader reader).map fun
    | (none, rx) => (some .invalidMessageElement, { s with rx := rx })
    | (some element, rx) =>
      let s := { s with rx := rx, elements := s.elements ++ [⟨id, category, element⟩] }
      match addElement s.messages ⟨id, category, element⟩ with
      | none => (some .invalidMessageElement, s)
      | some messages =>
        (if rx.readerpacketallowed = 0 then none else some .invalidMessageElement, { s with messages := messages })

/-- One round of the loop of `capwap_parsing_packet`: a result with which it returns, or what `bodylength`
becomes. -/
def parseElement (binding : ℕ) (junk : ElementId) (bodylength : ℕ) (s : ParseState ε) :
    Option (Except ParsingError ℕ × ParseState ε) :=
  let rx := { s.rx with readerpacketallowed := 4 }
  (rx.readNumber 2).bind fun
  | (none, rx) => some (.error .invalidMessageElement, { s with rx := rx })
  | (some type, rx) =>
    (rx.readNumber 2).bind fun
    | (none, rx) => some (.error .invalidMessageElement, { s with rx := rx })
    | (some msglength, rx) =>
      if bodylength < msglength then some (.error .invalidMessageElement, { s with rx := rx })
      else
        let rx := { rx with readerpacketallowed := msglength }
        if (ElementId.mk 0 type).Is80211 ∧ binding ≠ 1 then
          some (.error .unrecognizedMessageElement, { s with rx := rx })
        else
          (selectParser reg junk type msglength rx).bind fun
          | (.error result, rx) => some (.error result, { s with rx := rx })
          | (.ok (id, category, reader), rx) =>
            (parseValue id category reader { s with rx := rx }).map fun
            | (some result, s) => (.error result, s)
            | (none, s) => (.ok ((bodylength + 65536 - (msglength + 4) % 65536) % 65536), s)

/-- The loop of `capwap_parsing_packet`. -/
def parseLoop (reg : Registry ε) (binding : ℕ) (junk : ElementId) :
    ℕ → ℕ → ParseState ε → Option (Except ParsingError Unit × ParseState ε)
  | _, 0, s => some (.ok (), s)
  | 0, _ + 1, _ => none
  | fuel + 1, bodylength + 1, s =>
    (parseElement reg binding junk (bodylength + 1) s).bind fun
    | (.error result, s) => some (.error result, s)
    | (.ok bodylength, s) => parseLoop reg binding junk fuel bodylength s

/-- `capwap_parsing_packet`.  Every round that goes on reads four bytes or more, so that there are no more rounds than
there are bytes. -/
def parsingPacket (binding : ℕ) (junk : ElementId) (rx : PacketRxmng) :
    Option (Except ParsingError Unit × ParseState ε) :=
  parseLoop reg binding junk (rx.readbodypos.stream.length + 1) ((rx.ctrlmsg.length + 65536 - 3) % 65536)
    { rx := { rx with readpos := rx.readbodypos }, messages := [], elements := [] }

section

open Option

variable {reg} {binding bodylength : ℕ} {junk id : ElementId} {category : Category} {reader : Reader ε}
    {s s' : ParseState ε}

theorem parseValue_cases {r : Option ParsingError} (parsed : parseValue id category reader s = some (r, s')) :
    ((∀ element rx, s.rx.runReader reader ≠ some (some element, rx)) ∧
        s'.elements = s.elements ∧ s'.messages = s.messages ∧ r ≠ none) ∨
      ∃ element rx, s.rx.runReader reader = some (some element, rx) ∧
        s'.elements = s.elements ++ [⟨id, category, element⟩] ∧
        (addElement s.messages ⟨id, category, element⟩ = some s'.messages ∨
          addElement s.messages ⟨id, category, element⟩ = none ∧ s'.messages = s.messages ∧ r ≠ none) := by
  obtain ⟨⟨result, rx'⟩, run, same⟩ := map_eq_some_iff.1 parsed
  cases result with
  | none =>
    cases same
    exact .inl ⟨by simp [run], rfl, rfl, by simp⟩
  | some element =>
    refine .inr ⟨element, rx', run, ?_⟩
    simp only at same
    split at same
    next dropped =>
      cases same
      exact ⟨rfl, .inr ⟨dropped, rfl, by simp⟩⟩
    next added =>
      cases same
      exact ⟨rfl, .inl added⟩

/-- A round of the loop comes to the parser of an element. -/
def Chooses (reg : Registry ε) (binding : ℕ) (junk : ElementId) (bodylength : ℕ) (rx : PacketRxmng) (id : ElementId)
    (category : Category) (reader : Reader ε) (rx' : PacketRxmng) : Prop :=
  ∃ type msglength rx₁ rx₂, PacketRxmng.readNumber { rx with readerpacketallowed := 4 } 2 = some (some type, rx₁) ∧
    rx₁.readNumber 2 = some (some msglength, rx₂) ∧ msglength ≤ bodylength ∧
    ¬ ((ElementId.mk 0 type).Is80211 ∧ binding ≠ 1) ∧
    selectParser reg junk type msglength { rx₂ with readerpacketallowed := msglength } =
      some (.ok (id, category, reader), rx')

theorem chooses_iff {type msglength : ℕ} {rx rx₁ rx₂ rx' : PacketRxmng}
    (read₁ : PacketRxmng.readNumber { rx with readerpacketallowed := 4 } 2 = some (some type, rx₁))
    (read₂ : rx₁.readNumber 2 = some (some msglength, rx₂)) :
    Chooses reg binding junk bodylength rx id category reader rx' ↔ msglength ≤ bodylength ∧
      ¬ ((ElementId.mk 0 type).Is80211 ∧ binding ≠ 1) ∧
      selectParser reg junk type msglength { rx₂ with readerpacketallowed := msglength } =
        some (.ok (id, category, reader), rx') := by
  constructor
  · rintro ⟨_, _, _, _, read₁', read₂', rest⟩
    cases read₁.symm.trans read₁'
    cases read₂.symm.trans read₂'
    exact rest
  · exact fun rest => ⟨_, _, _, _, read₁, read₂, rest⟩

/-- What one round of the loop can do: it keeps nothing and fails, or it comes to a parser. -/
theorem parseElement_cases {r : Except ParsingError ℕ}
    (parsed : parseElement reg binding junk bodylength s = some (r, s')) :
    ((∀ id category reader rx, ¬ Chooses reg binding junk bodylength s.rx id category reader rx) ∧
        s'.elements = s.elements ∧ s'.messages = s.messages ∧ ∃ e, r = .error e) ∨
      ∃ id category reader rx value, Chooses reg binding junk bodylength s.rx id category reader rx ∧
        parseValue id category reader { s with rx := rx } = some (value, s') ∧ (value ≠ none → ∃ e, r = .error e) := by
  unfold parseElement at parsed
  obtain ⟨⟨type, rx₁⟩, read₁, parsed⟩ := bind_eq_some_iff.1 parsed
  cases type with
  | none =>
    cases parsed
    exact .inl ⟨by simp [Chooses, read₁], rfl, rfl, _, rfl⟩
  | some type =>
    obtain ⟨⟨msglength, rx₂⟩, read₂, parsed⟩ := bind_eq_some_iff.1 parsed
    cases msglength with
    | none =>
      cases parsed
      exact .inl ⟨by simp [Chooses, read₁, read₂], rfl, rfl, _, rfl⟩
    | some msglength =>
      simp only [chooses_iff read₁ read₂]
      simp only at parsed
      split at parsed
      · cases parsed
        exact .inl ⟨fun _ _ _ _ chosen => by omega, rfl, rfl, _, rfl⟩
      split at parsed
      next refused =>
        cases parsed
        exact .inl ⟨fun _ _ _ _ chosen => chosen.2.1 refused, rfl, rfl, _, rfl⟩
      obtain ⟨⟨selected, rx₃⟩, select, parsed⟩ := bind_eq_some_iff.1 parsed
      cases selected with
      | error e =>
        cases parsed
        exact .inl ⟨by simp [select], rfl, rfl, _, rfl⟩
      | ok x =>
        obtain ⟨⟨value, s₁⟩, run, same⟩ := map_eq_some_iff.1 parsed
        refine .inr ⟨x.1, x.2.1, x.2.2, rx₃, value, ⟨by omega, ‹_›, select⟩, ?_⟩
        cases value <;> cases same
        · exact ⟨run, fun some => absurd rfl some⟩
        · exact ⟨run, fun _ => ⟨_, rfl⟩⟩

end

end OpenWifi.CapwapElement
