import OpenWifi.AcSession.Validation
import OpenWifi.CapwapElement.Fields

/-!
# Elements of the 802.11 binding

`capwap_parsing_packet` refuses the elements of the 802.11 binding in a message of another binding by the type of the
element; the id of a vendor payload replaces the type afterwards.
-/

namespace OpenWifi.CapwapElement

open List Option CapwapProtocol

variable {ε : Type*} {reg : Registry ε} {binding : ℕ} {junk : ElementId} {rx : PacketRxmng} {s : ParseState ε}

def vendorAhead (junk : ElementId) (bodylength : ℕ) (rx : PacketRxmng) : Option (ElementId × PacketRxmng) :=
  (PacketRxmng.readNumber { rx with readerpacketallowed := 4 } 2).bind fun (type, rx) =>
  (rx.readNumber 2).bind fun (length, rx) =>
    match type, length with
    | some type, some msglength =>
      if type = vendorpayload.type ∧ msglength ≤ bodylength ∧ 7 ≤ msglength ∧ msglength - 6 ≤ 2048 then
        readVendorId junk { rx with readerpacketallowed := msglength }
      else none
    | _, _ => none

/-- A vendor payload at the position names an 802.11 element, and the parser of the element takes what is in it. -/
def Smuggles (reg : Registry ε) (junk : ElementId) (bodylength : ℕ) (rx : PacketRxmng) : Prop :=
  ∃ id rx' ops, vendorAhead junk bodylength rx = some (id, rx') ∧ id.Is80211 ∧ reg.ops id = some ops ∧
    ∃ element rx'', rx'.runReader ops.parse = some (some element, rx'')

/-- The beginnings of the rounds of the loop: `bodylength` and the state, behind elements that are parsed without
error. -/
inductive Reached (reg : Registry ε) (binding : ℕ) (junk : ElementId) : ℕ → ParseState ε → ℕ → ParseState ε → Prop
  | start (b : ℕ) (s : ParseState ε) : Reached reg binding junk b s b s
  | round {b b' c : ℕ} {s s' t : ParseState ε} (more : b ≠ 0)
    (parsed : parseElement reg binding junk b s = some (.ok b', s'))
      (later : Reached reg binding junk b' s' c t) : Reached reg binding junk b s c t

def Has80211 (messages : List (MessageElement ε)) : Prop := ∃ m ∈ messages, m.id.Is80211

section

variable {messages messages' : List (MessageElement ε)} {p : Parsed ε} (added : addElement messages p = some messages')
include added

theorem ids_addElement (id : ElementId) : (∃ m ∈ messages', m.id = id) ↔ (∃ m ∈ messages, m.id = id) ∨ p.id = id := by
  unfold addElement at added
  split at added
  · cases added
    simp [mem_append, or_and_right, exists_or]
  next old found =>
    have there : ∃ m ∈ messages, m.id = p.id := by
      refine ⟨old, mem_of_find?_eq_some found, ?_⟩
      simpa using find?_some found
    split at added
    · exact absurd added (by simp)
    · cases added
      have kept (m : MessageElement ε) :
          (if m.id = p.id then { m with data := m.data ++ [p.element] } else m : MessageElement ε).id = m.id := by
        split <;> rfl
      simp only [List.mem_map, exists_exists_and_eq_and, kept]
      constructor
      · exact .inl
      · rintro (old | rfl)
        · exact old
        · exact there

theorem has80211_addElement : Has80211 messages' ↔ Has80211 messages ∨ p.id.Is80211 := by
  have by_id (l : List (MessageElement ε)) : Has80211 l ↔ ∃ id : ElementId, id.Is80211 ∧ ∃ m ∈ l, m.id = id :=
    ⟨fun ⟨m, mem, is⟩ => ⟨m.id, is, m, mem, rfl⟩, fun ⟨_, is, m, mem, same⟩ => ⟨m, mem, same ▸ is⟩⟩
  simp only [by_id, ids_addElement added, and_or_left, exists_or, exists_eq_right']

end

variable {s' : ParseState ε}

theorem parseValue_has80211 {id : ElementId} {category : Category} {reader : Reader ε} {r : Option ParsingError}
    (parsed : parseValue id category reader s = some (r, s')) (clean : ¬ Has80211 s.messages) :
    Has80211 s'.messages ↔ id.Is80211 ∧ ∃ element rx', s.rx.runReader reader = some (some element, rx') := by
  rcases parseValue_cases parsed with ⟨no, -, same, -⟩ | ⟨element, rx', run, -, added | ⟨dropped, same, -⟩⟩
  · rw [same]
    exact iff_of_false clean fun ⟨_, element, rx', run⟩ => no element rx' run
  · rw [has80211_addElement added, or_iff_right clean]
    exact ⟨fun is => ⟨is, element, rx', run⟩, And.left⟩
  · -- one of a kind that is there already is not an 802.11 element
    obtain ⟨-, m, there, eq⟩ := addElement_eq_none dropped
    rw [same]
    exact iff_of_false clean fun ⟨is, _⟩ => clean ⟨m, there, eq ▸ is⟩

variable {bodylength : ℕ} {r : Except ParsingError ℕ}

theorem chooses_of_vendorAhead {named : ElementId} {rx' : PacketRxmng} {ops : ElementOps ε}
    (ahead : vendorAhead junk bodylength rx = some (named, rx')) (known : reg.ops named = some ops) :
    Chooses reg binding junk bodylength rx named ops.category ops.parse rx' := by
  unfold vendorAhead at ahead
  obtain ⟨⟨type, rx₁⟩, read₁, ahead⟩ := bind_eq_some_iff.1 ahead
  obtain ⟨⟨length, rx₂⟩, read₂, ahead⟩ := bind_eq_some_iff.1 ahead
  dsimp only at ahead
  split at ahead
  · obtain ⟨⟨rfl, fits, under, bounded⟩, read⟩ := ite_none_right_eq_some.1 ahead
    refine (chooses_iff read₁ read₂).2 ⟨fits, fun is => absurd is.1 (by decide), ?_⟩
    obtain ⟨⟨vendor, rx₃⟩, read₃, read⟩ := bind_eq_some_iff.1 read
    obtain ⟨⟨vendorType, rx₄⟩, read₄, same⟩ := map_eq_some_iff.1 read
    cases same
    rw [selectParser, if_pos rfl, if_neg (by omega), if_neg (by omega), read₃, bind_some]
    simp [read₄, known]
  · cases ahead

theorem parseElement_has80211 (other : binding ≠ 1)
    (parsed : parseElement reg binding junk bodylength s = some (r, s')) (clean : ¬ Has80211 s.messages) :
    Has80211 s'.messages ↔ Smuggles reg junk bodylength s.rx := by
  rcases parseElement_cases parsed with ⟨no, -, same, -⟩ | ⟨id, category, reader, rx, value, chosen, run, -⟩
  · rw [same]
    exact iff_of_false clean fun ⟨_, _, _, ahead, _, known, _⟩ => no _ _ _ _ (chooses_of_vendorAhead ahead known)
  obtain ⟨type, msglength, rx₁, rx₂, read₁, read₂, fits, plain, select⟩ := chosen
  rw [parseValue_has80211 run clean]
  constructor
  · rintro ⟨is, taken⟩
    rcases (selectParser_ok select).2 with ⟨-, rfl⟩ | ⟨vendor, under, bounded, named, read, chosen⟩
    · exact absurd ⟨is, other⟩ plain
    · rcases chosen with ⟨ops, known, rfl, rfl⟩ | ⟨-, rfl⟩
      · refine ⟨id, rx, ops, ?_, is, known, taken⟩
        rw [vendorAhead, read₁, bind_some]
        simp only [read₂, bind_some]
        rw [if_pos ⟨vendor, fits, under, bounded⟩, read]
      · exact absurd is (by decide)
  · rintro ⟨named, rx', ops, ahead, is, known, taken⟩
    have chosen : Chooses reg binding junk bodylength s.rx _ _ _ _ := chooses_of_vendorAhead ahead known
    cases select.symm.trans ((chooses_iff read₁ read₂).1 chosen).2.2
    exact ⟨is, taken⟩

theorem parseElement_stores (parsed : parseElement reg binding junk bodylength s = some (r, s')) :
    s'.messages = s.messages ∨ ∃ p, addElement s.messages p = some s'.messages := by
  rcases parseElement_cases parsed with ⟨-, -, same, -⟩ | ⟨_, _, _, _, _, -, run, -⟩
  · exact .inl same
  · rcases parseValue_cases run with ⟨-, -, same, -⟩ | ⟨_, _, -, -, added | ⟨-, same, -⟩⟩
    · exact .inl same
    · exact .inr ⟨_, added⟩
    · exact .inl same

theorem Has80211.parseElement
    (has : Has80211 s.messages) (parsed : parseElement reg binding junk bodylength s = some (r, s')) :
    Has80211 s'.messages := by
  rcases parseElement_stores parsed with same | ⟨p, added⟩
  · rwa [same]
  · exact (has80211_addElement added).2 (.inl has)

variable {r : Except ParsingError Unit}

theorem Has80211.parseLoop {k n : ℕ} (has : Has80211 s.messages)
    (parsed : parseLoop reg binding junk k n s = some (r, s')) : Has80211 s'.messages := by
  fun_induction CapwapElement.parseLoop reg binding junk k n s with
  | case1 =>
    cases parsed
    exact has
  | case2 => cases parsed
  | case3 k n s ih =>
    obtain ⟨⟨result, s₁⟩, first, parsed⟩ := bind_eq_some_iff.1 parsed
    cases result with
    | error e =>
      cases parsed
      exact has.parseElement first
    | ok b => exact ih _ _ (has.parseElement first) parsed

theorem parseLoop_has80211 {k n : ℕ} (other : binding ≠ 1)
    (parsed : parseLoop reg binding junk k n s = some (r, s')) (clean : ¬ Has80211 s.messages) :
    Has80211 s'.messages ↔ ∃ b t, Reached reg binding junk n s b t ∧ b ≠ 0 ∧ Smuggles reg junk b t.rx := by
  fun_induction parseLoop reg binding junk k n s with
  | case1 =>
    cases parsed
    refine iff_of_false clean ?_
    rintro ⟨b, t, reached, more, -⟩
    cases reached with
    | start => exact more rfl
    | round more => exact more rfl
  | case2 => cases parsed
  | case3 k n s ih =>
    obtain ⟨⟨result, s₁⟩, first, parsed⟩ := bind_eq_some_iff.1 parsed
    have here := parseElement_has80211 other first clean
    -- the first round, or one behind it
    have split : (∃ b t, Reached reg binding junk (n + 1) s b t ∧ b ≠ 0 ∧ Smuggles reg junk b t.rx) ↔
        Smuggles reg junk (n + 1) s.rx ∨ ∃ c, result = .ok c ∧
          ∃ b t, Reached reg binding junk c s₁ b t ∧ b ≠ 0 ∧ Smuggles reg junk b t.rx := by
      constructor
      · rintro ⟨b, t, reached, more, smuggles⟩
        cases reached with
        | start => exact .inl smuggles
        | round _ ok later =>
          cases first.symm.trans ok
          exact .inr ⟨_, rfl, b, t, later, more, smuggles⟩
      · rintro (smuggles | ⟨c, rfl, b, t, later, more, smuggles⟩)
        · exact ⟨n + 1, s, .start _ _, by simp, smuggles⟩
        · exact ⟨b, t, .round (by simp) first later, more, smuggles⟩
    rw [split, ← here]
    cases result with
    | error e =>
      cases parsed
      simp
    | ok b =>
      by_cases now : Has80211 s₁.messages
      · exact iff_of_true (now.parseLoop parsed) (.inl now)
      · rw [ih _ _ parsed now]
        simp [now]

/-- What the loop of `capwap_parsing_packet` begins with. -/
def parseStart (rx : PacketRxmng) : ParseState ε where
  rx := { rx with readpos := rx.readbodypos }
  messages := []
  elements := []

/-- `capwap_80211_wtpradioinformation_element_parsing`. -/
def wtpradioinformationParsing : Reader (UInt8 × UInt32) :=
  .ready fun length =>
    if length ≠ 5 then .done none
    else readU8 fun radioid => readU32 fun radiotype => .done (some (radioid, radiotype))

def radioInformations : Registry (UInt8 × UInt32) where
  ops id := if id = .wtpradioinformation80211 then some ⟨.array, wtpradioinformationParsing⟩
    else if id = vendorpayload then some ⟨.array, .ready fun n => .block n fun _ => .done (some (0, 0))⟩ else none
  payload := ⟨.array, .ready fun n => .block n fun _ => .done (some (0, 0))⟩
  ops_vendorpayload := rfl
  unknownVendor n _ := .block n fun _ => .done (some (0, 0))

def eventMessage (vendor : UInt8) : PacketRxmng :=
  { rxmngCreateMessage with
    fragmentlist := [[0, 16, 0, 0, 0, 0, 0, 0, 0, 0, 0, 9, 1, 0, 18, 0,
      0, 37, 0, 11, 0, 0, 0, vendor, 4, 24, 1, 0, 0, 0, 4]] }

end OpenWifi.CapwapElement
