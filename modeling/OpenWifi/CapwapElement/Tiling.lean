import OpenWifi.CapwapElement.Parsing

/-!
# A parsed message is a tiling

A control message of less than 65536 bytes that `capwap_parsing_packet` accepts is a sequence of elements of
type, length and value, each parsed from exactly its value, and `packet->messages` has all of them, by id.
-/

namespace OpenWifi.CapwapElement

open List Option CapwapProtocol PacketRxmng

variable {ε : Type*}

/-! ## Elements and their bytes -/

def Registry.parserFor (reg : Registry ε) (type : ℕ) (value : List UInt8) :
    Option (ElementId × Category × Reader ε × List UInt8) :=
  if type = vendorpayload.type then
    if value.length < 7 ∨ 2048 < value.length - 6 then none
    else
      let vendorId : ElementId := ⟨networkNumber (value.take 4), networkNumber ((value.drop 4).take 2)⟩
      match reg.ops vendorId with
      | some ops => some (vendorId, ops.category, ops.parse, value.drop 6)
      | none => some (vendorpayload, reg.payload.category, reg.unknownVendor (value.length - 6) vendorId, value.drop 6)
  else (reg.ops ⟨0, type⟩).map fun ops => (⟨0, type⟩, ops.category, ops.parse, value)

structure Part (ε : Type*) extends Parsed ε where
  type : ℕ
  value : List UInt8

def Part.bytes (p : Part ε) : List UInt8 := be16 p.type ++ be16 p.value.length ++ p.value

def Part.ParsedBy (reg : Registry ε) (p : Part ε) : Prop :=
  ∃ reader bytes, reg.parserFor p.type p.value = some (p.id, p.category, reader, bytes) ∧
    reader.eval bytes = (some p.element, [])

theorem Part.length_bytes (p : Part ε) : p.bytes.length = p.value.length + 4 := by
  simp only [Part.bytes, length_append, length_be16]
  omega

theorem networkNumber_two {bytes : List UInt8} (two : bytes.length = 2) :
    networkNumber bytes < 65536 ∧ be16 (networkNumber bytes) = bytes := by
  obtain ⟨a, b, rfl⟩ := length_eq_two.1 two
  have ha := a.toNat_lt
  have hb := b.toNat_lt
  have number : networkNumber [a, b] = a.toNat * 256 + b.toNat := by simp [networkNumber]
  have high : UInt8.ofNat ((a.toNat * 256 + b.toNat) / 256) = a := by
    rw [show (a.toNat * 256 + b.toNat) / 256 = a.toNat by omega, UInt8.ofNat_toNat]
  have low : UInt8.ofNat (a.toNat * 256 + b.toNat) = b := by
    apply UInt8.toNat_inj.1
    rw [UInt8.toNat_ofNat']
    omega
  exact ⟨by omega, by rw [number, be16, high, low]⟩

theorem networkNumber_be16 {n : ℕ} (lt : n < 65536) : networkNumber (be16 n) = n := by
  simp only [networkNumber, be16, foldl_cons, foldl_nil, UInt8.toNat_ofNat']
  omega

variable {reg : Registry ε} {binding bodylength : ℕ} {junk : ElementId} {rx : PacketRxmng} {s : ParseState ε}

theorem Readable.allow (h : rx.Readable) {n : ℕ} (lt : n < 65536) :
    ({ rx with readerpacketallowed := n } : PacketRxmng).Readable := ⟨h.within, h.short, lt⟩

theorem selectParser_spec (reg : Registry ε) (junk : ElementId) (type : ℕ) (h : rx.Readable) :
    ∃ r rx' n, selectParser reg junk type rx.readerpacketallowed rx = some (r, rx') ∧ After rx n rx' ∧
      ∀ x, r = .ok x → n ≤ rx.readerpacketallowed ∧ (rx.readerpacketallowed ≤ rx.stream.length →
        reg.parserFor type (rx.stream.take rx.readerpacketallowed) =
          some (x.1, x.2.1, x.2.2, rx'.stream.take (rx.readerpacketallowed - n))) := by
  unfold selectParser
  split
  next vendor =>
    split
    · exact ⟨_, rx, 0, rfl, After.refl h, by simp⟩
    next long =>
      split
      · exact ⟨_, rx, 0, rfl, After.refl h, by simp⟩
      next short =>
        obtain ⟨rx₁, first, read₁⟩ := readNumber_spec h 4 (by omega) (by omega)
        have allowed₁ := first.allowed
        have total := h.allowed
        have len₁ : (rx.stream.take 4).length ≤ 4 := length_take_le _ _
        obtain ⟨rx₂, second, read₂⟩ := readNumber_spec first.readable 2 (by omega) (by omega)
        have len₂ : (rx₁.stream.take 2).length ≤ 2 := length_take_le _ _
        simp only [read₁, read₂, bind_some]
        have after := first.trans h second
        -- with the whole value there, both numbers are read from it
        have value : rx.readerpacketallowed ≤ rx.stream.length →
            (rx.stream.take 4).length = 4 ∧ (rx₁.stream.take 2).length = 2 ∧
            ((rx.stream.take rx.readerpacketallowed).take 4) = rx.stream.take 4 ∧
            ((rx.stream.take rx.readerpacketallowed).drop 4).take 2 = rx₁.stream.take 2 ∧
            (rx.stream.take rx.readerpacketallowed).drop 6 = rx₂.stream.take (rx.readerpacketallowed - 6) ∧
            (rx.stream.take rx.readerpacketallowed).length = rx.readerpacketallowed := by
          intro whole
          have four : (rx.stream.take 4).length = 4 := by rw [length_take]; omega
          have stream₁ : rx₁.stream = rx.stream.drop 4 := by rw [first.stream, four]
          have two : (rx₁.stream.take 2).length = 2 := by
            rw [stream₁, length_take, length_drop]
            omega
          have stream₂ : rx₂.stream = rx.stream.drop 6 := by rw [after.stream, four, two]
          refine ⟨four, two, ?_, ?_, ?_, by rw [length_take, Nat.min_eq_left whole]⟩
          · rw [take_take, Nat.min_eq_left (by omega)]
          · rw [drop_take, take_take, Nat.min_eq_left (by omega), stream₁]
          · rw [drop_take, stream₂]
        split
        all_goals
          rename_i known
          refine ⟨_, rx₂, _, rfl, after, ?_⟩
          rintro x ⟨⟩
          refine ⟨by omega, fun whole => ?_⟩
          obtain ⟨four, two, value₁, value₂, value₃, length⟩ := value whole
          simp only [four, two, ne_eq, not_true_eq_false, if_false, getD_some] at known ⊢
          rw [Registry.parserFor, if_pos vendor, if_neg (by omega), value₁, value₂, value₃, length]
          simp [known]
  · split
    next ops known =>
      refine ⟨_, rx, 0, rfl, After.refl h, ?_⟩
      rintro x ⟨⟩
      refine ⟨Nat.zero_le _, fun _ => ?_⟩
      rw [Registry.parserFor, if_neg ‹_›, known]
      rfl
    · exact ⟨_, rx, 0, rfl, After.refl h, by simp⟩

theorem parseValue_spec (id : ElementId) (category : Category) (reader : Reader ε) (h : s.rx.Readable) :
    ∃ r s', parseValue id category reader s = some (r, s') ∧ s'.rx.Readable ∧ (r = none → ∃ element,
        After s.rx s.rx.readerpacketallowed s'.rx ∧
        reader.eval (s.rx.stream.take s.rx.readerpacketallowed) = (some element, []) ∧
        s'.elements = s.elements ++ [⟨id, category, element⟩] ∧
        addElement s.messages ⟨id, category, element⟩ = some s'.messages) := by
  obtain ⟨result, rx', n, run, after, eval⟩ := runReader_spec reader h
  unfold parseValue
  rw [run, map_some]
  cases result with
  | none => exact ⟨_, _, rfl, after.readable, by simp⟩
  | some element =>
    simp only
    split
    · exact ⟨_, _, rfl, after.readable, by simp⟩
    next messages added =>
      refine ⟨_, _, rfl, after.readable, fun goesOn => ?_⟩
      -- the allowance is a multiple of 65536 below what was allowed, and less than 65536 bytes are read
      have used : n = s.rx.readerpacketallowed := by
        have zero : rx'.readerpacketallowed = 0 := by
          by_contra left
          simp [left] at goesOn
        have allowed := after.allowed
        have := after.le
        have := h.short
        have := h.allowed
        omega
      subst used
      exact ⟨element, after, eval rfl, rfl, added⟩

theorem readNumber_two (h : rx.Readable) (allowed : 2 ≤ rx.readerpacketallowed) :
    (∃ rx', rx.readNumber 2 = some (none, rx') ∧ rx'.Readable) ∨
      ∃ n rx', rx.readNumber 2 = some (some n, rx') ∧ rx'.Readable ∧ n < 65536 ∧
        rx.stream = be16 n ++ rx'.stream ∧ rx'.readerpacketallowed = rx.readerpacketallowed - 2 := by
  obtain ⟨rx', after, read⟩ := readNumber_spec h 2 allowed (by decide)
  rw [read]
  by_cases two : (rx.stream.take 2).length = 2
  · right
    obtain ⟨lt, bytes⟩ := networkNumber_two two
    refine ⟨_, rx', by rw [if_neg (not_not.2 two)], after.readable, lt, ?_, ?_⟩
    · rw [bytes, after.stream, two, take_append_drop]
    · have := h.allowed
      rw [after.allowed, two]
      omega
  · left
    exact ⟨rx', by rw [if_pos two], after.readable⟩

theorem parseElement_spec (reg : Registry ε) (binding : ℕ) (junk : ElementId) (bodylength : ℕ) (h : s.rx.Readable) :
    ∃ r s', parseElement reg binding junk bodylength s = some (r, s') ∧ s'.rx.Readable ∧
      ∀ b, r = .ok b → ∃ p : Part ε, p.ParsedBy reg ∧ p.type < 65536 ∧ s.rx.stream = p.bytes ++ s'.rx.stream ∧
        b = (bodylength + 65536 - p.bytes.length % 65536) % 65536 ∧
        s'.elements = s.elements ++ [p.toParsed] ∧ addElement s.messages p.toParsed = some s'.messages := by
  unfold parseElement
  have four : ({ s.rx with readerpacketallowed := 4 } : PacketRxmng).Readable := Readable.allow h (by decide)
  rcases readNumber_two four (show 2 ≤ 4 by decide) with
    ⟨rx₁, read, readable⟩ | ⟨type, rx₁, read, readable₁, small, stream₁, allowed₁⟩
  · simp only [read, bind_some]
    exact ⟨_, _, rfl, readable, by simp⟩
  simp only [read, bind_some]
  rcases readNumber_two readable₁ (allowed₁ ▸ show 2 ≤ 4 - 2 by decide) with
    ⟨rx₂, read, readable⟩ | ⟨msglength, rx₂, read, readable₂, lt, stream₂, -⟩
  · simp only [read, bind_some]
    exact ⟨_, _, rfl, readable, by simp⟩
  simp only [read, bind_some]
  split
  · exact ⟨_, _, rfl, readable₂, by simp⟩
  have readable₃ : ({ rx₂ with readerpacketallowed := msglength } : PacketRxmng).Readable := Readable.allow readable₂ lt
  split
  · exact ⟨_, _, rfl, readable₃, by simp⟩
  obtain ⟨r, rx₄, n, selected, after, parser⟩ := selectParser_spec reg junk type readable₃
  rw [selected]
  cases r with
  | error result => exact ⟨_, _, rfl, after.readable, by simp⟩
  | ok x =>
    obtain ⟨id, category, reader⟩ := x
    obtain ⟨r, s', parsed, readable, goesOn⟩ :=
      parseValue_spec (s := { s with rx := rx₄ }) id category reader after.readable
    simp only [bind_some, parsed, map_some]
    cases r with
    | some result => exact ⟨_, _, rfl, readable, by simp⟩
    | none =>
      obtain ⟨element, second, eval, elements, added⟩ := goesOn rfl
      obtain ⟨le, found⟩ := parser _ rfl
      have left : rx₄.readerpacketallowed = msglength - n := by
        rw [after.allowed]
        show (msglength + 65536 - n) % 65536 = _
        have : n ≤ msglength := le
        omega
      have total := after.trans readable₃ second
      have used : n + rx₄.readerpacketallowed = msglength := by
        have : n ≤ msglength := le
        omega
      rw [show n + ({ s with rx := rx₄ } : ParseState ε).rx.readerpacketallowed = msglength from used] at total
      have whole : msglength ≤ rx₂.stream.length := total.le
      refine ⟨_, s', rfl, readable, ?_⟩
      rintro b ⟨⟩
      refine ⟨{ id := id, category := category, element := element, type := type, value := rx₂.stream.take msglength },
        ⟨reader, _, found whole, ?_⟩, small, ?_, ?_, elements, added⟩
      · show reader.eval (rx₄.stream.take (msglength - n)) = _
        rw [← left]
        exact eval
      · have rest : s'.rx.stream = rx₂.stream.drop msglength := total.stream
        have length : (rx₂.stream.take msglength).length = msglength := by
          rw [length_take, Nat.min_eq_left whole]
        show s.rx.stream = be16 type ++ be16 (rx₂.stream.take msglength).length ++ rx₂.stream.take msglength ++ _
        rw [length, rest, append_assoc, append_assoc, take_append_drop, ← stream₂]
        exact stream₁
      · rw [Part.length_bytes, length_take, Nat.min_eq_left whole]

theorem parseLoop_spec (reg : Registry ε) (binding : ℕ) (junk : ElementId) {fuel : ℕ}
    (h : s.rx.Readable) (enough : s.rx.stream.length < fuel) (lt : bodylength < 65536) :
    ∃ result s', parseLoop reg binding junk fuel bodylength s = some (result, s') ∧
      (result = .ok () → ∃ parts : List (Part ε), (∀ p ∈ parts, p.ParsedBy reg ∧ p.type < 65536) ∧
        s.rx.stream = parts.flatMap Part.bytes ++ s'.rx.stream ∧ bodylength = (parts.flatMap Part.bytes).length ∧
        s'.elements = s.elements ++ parts.map Part.toParsed ∧
        (parts.map Part.toParsed).foldlM addElement s.messages = some s'.messages) := by
  induction fuel generalizing bodylength s with
  | zero => omega
  | succ fuel ih =>
    cases bodylength with
    | zero => exact ⟨.ok (), s, rfl, fun _ => ⟨[], by simp, by simp, by simp, by simp, by simp⟩⟩
    | succ bodylength =>
      obtain ⟨r, s₁, parsed, readable, goesOn⟩ := parseElement_spec reg binding junk (bodylength + 1) h
      rw [parseLoop, parsed, bind_some]
      cases r with
      | error result => exact ⟨_, s₁, rfl, by simp⟩
      | ok b =>
        obtain ⟨p, parsedBy, small, stream, rest, elements, added⟩ := goesOn b rfl
        have length := congrArg List.length stream
        rw [length_append, Part.length_bytes] at length
        have bound : b < 65536 := by rw [rest]; exact Nat.mod_lt _ (by decide)
        obtain ⟨result, s', ended, complete⟩ := ih readable (by omega) bound
        refine ⟨result, s', ended, fun accepted => ?_⟩
        obtain ⟨parts, all, stream', length', elements', added'⟩ := complete accepted
        refine ⟨p :: parts, forall_mem_cons.2 ⟨⟨parsedBy, small⟩, all⟩, ?_, ?_, ?_, ?_⟩
        · rw [stream, stream', flatMap_cons, append_assoc]
        · have := congrArg List.length stream'
          have := h.short
          rw [length_append] at *
          rw [flatMap_cons, length_append, ← length', Part.length_bytes]
          rw [Part.length_bytes] at rest
          omega
        · rw [elements', elements, map_cons, append_assoc, singleton_append]
        · rw [map_cons, foldlM_cons, added]
          exact added'

/-! ## The list of elements -/

structure Grouped (category : ElementId → Category) (elements : List (Parsed ε))
    (messages : List (MessageElement ε)) : Prop where
  ids : messages.map (·.id) = (elements.map (·.id)).eraseDups
  category_eq : ∀ m ∈ messages, m.category = category m.id
  data : ∀ m ∈ messages, m.data = (elements.filter (·.id = m.id)).map (·.element)
  single : ∀ m ∈ messages, m.category = .single → m.data.length = 1

theorem grouped_nil (category : ElementId → Category) : Grouped category ([] : List (Parsed ε)) [] :=
  ⟨rfl, by simp, by simp, by simp⟩

variable {category : ElementId → Category}

theorem Grouped.mem_ids {elements : List (Parsed ε)}
    {messages : List (MessageElement ε)} (h : Grouped category elements messages) (id : ElementId) :
    (∃ m ∈ messages, m.id = id) ↔ ∃ p ∈ elements, p.id = id := by
  rw [← List.mem_map, h.ids, mem_eraseDups, List.mem_map]

theorem Grouped.add {elements : List (Parsed ε)}
    {messages messages' : List (MessageElement ε)} {p : Parsed ε} (h : Grouped category elements messages)
    (kind : p.category = category p.id) (added : addElement messages p = some messages') :
    Grouped category (elements ++ [p]) messages' := by
  have filtered : ∀ id, ((elements ++ [p]).filter (·.id = id)).map (·.element) =
      (elements.filter (·.id = id)).map (·.element) ++ if p.id = id then [p.element] else [] := by
    intro id
    by_cases here : p.id = id <;> simp [here]
  have idsOf : ((elements ++ [p]).map (·.id)).eraseDups =
      messages.map (·.id) ++ if ∃ m ∈ messages, m.id = p.id then [] else [p.id] := by
    rw [map_append, eraseDups_append, h.ids]
    simp only [h.mem_ids]
    by_cases seen : ∃ q ∈ elements, q.id = p.id
    · simp [List.removeAll, seen]
    · have alone : [p.id].removeAll (elements.map (·.id)) = [p.id] := by simpa [List.removeAll] using seen
      rw [if_neg seen]
      exact congrArg (_ ++ List.eraseDups ·) alone
  unfold addElement getMessageElement at added
  split at added
  next absent =>
    cases added
    have new : ∀ m ∈ messages, m.id ≠ p.id := by simpa using absent
    have unseen : ¬∃ m ∈ messages, m.id = p.id := fun ⟨m, mem, same⟩ => new m mem same
    have alone : elements.filter (·.id = p.id) = [] := by
      rw [filter_eq_nil_iff]
      intro q mem same
      exact unseen ((h.mem_ids p.id).2 ⟨q, mem, of_decide_eq_true same⟩)
    refine ⟨?_, fun m mem => ?_, fun m mem => ?_, fun m mem one => ?_⟩
    · rw [idsOf, if_neg unseen, map_append]
      rfl
    all_goals rcases mem_append.1 mem with mem | mem
    · exact h.category_eq m mem
    · obtain rfl := mem_singleton.1 mem
      exact kind
    · rw [filtered, if_neg (new m mem).symm, append_nil]
      exact h.data m mem
    · obtain rfl := mem_singleton.1 mem
      rw [filtered, alone, if_pos rfl]
      rfl
    · exact h.single m mem one
    · obtain rfl := mem_singleton.1 mem
      rfl
  next old found =>
    have seen : ∃ m ∈ messages, m.id = p.id := ⟨old, mem_of_find?_eq_some found, by simpa using find?_some found⟩
    split at added
    · simp at added
    next array =>
      cases added
      refine ⟨?_, fun m mem => ?_, fun m mem => ?_, fun m mem one => ?_⟩
      · rw [idsOf, if_pos seen, append_nil, List.map_map]
        refine map_congr_left fun m _ => ?_
        show (if m.id = p.id then _ else m).id = m.id
        split <;> rfl
      all_goals
        obtain ⟨m, there, rfl⟩ := mem_map.1 mem
        split
      · exact h.category_eq m there
      · exact h.category_eq m there
      next same => rw [filtered, if_pos same.symm, ← h.data m there]
      next other =>
        rw [filtered, if_neg (Ne.symm other), append_nil]
        exact h.data m there
      next same =>
        rw [if_pos same] at one
        rw [show m.category = .array by rw [h.category_eq m there, same, ← kind, array]] at one
        simp at one
      next other =>
        rw [if_neg other] at one
        exact h.single m there one

theorem addElement_eq_none {messages : List (MessageElement ε)} {p : Parsed ε} (h : addElement messages p = none) :
    p.category = .single ∧ ∃ m ∈ messages, m.id = p.id := by
  unfold addElement getMessageElement at h
  split at h
  · simp at h
  next old found =>
    refine ⟨?_, old, mem_of_find?_eq_some found, by simpa using find?_some found⟩
    cases kind : p.category with
    | single => rfl
    | array => simp [kind] at h

theorem Grouped.addAll {elements new : List (Parsed ε)}
    {messages messages' : List (MessageElement ε)} (h : Grouped category elements messages)
    (kinds : ∀ p ∈ new, p.category = category p.id) (added : new.foldlM addElement messages = some messages') :
    Grouped category (elements ++ new) messages' := by
  induction new generalizing elements messages with
  | nil =>
    cases added
    rw [append_nil]
    exact h
  | cons p new ih =>
    rw [foldlM_cons] at added
    obtain ⟨messages₁, first, rest⟩ := bind_eq_some_iff.1 added
    have := ih (h.add (kinds p mem_cons_self) first) (fun q mem => kinds q (mem_cons_of_mem _ mem)) rest
    rwa [append_assoc] at this

def Registry.categoryOf (reg : Registry ε) (id : ElementId) : Category :=
  ((reg.ops id).map (·.category)).getD .single

/-- The id at the beginning of a vendor payload, and the message behind it.  A missing number is what is in `junk`. -/
def readVendorId (junk : ElementId) (rx : PacketRxmng) : Option (ElementId × PacketRxmng) :=
  (rx.readNumber 4).bind fun (vendor, rx) =>
  (rx.readNumber 2).map fun (vendorType, rx) => (⟨vendor.getD junk.vendor, vendorType.getD junk.type⟩, rx)

theorem selectParser_ok {reg : Registry ε} {junk : ElementId} {type msglength : ℕ} {id : ElementId}
    {category : Category}
    {reader : Reader ε} {rx rx' : PacketRxmng}
    (select : selectParser reg junk type msglength rx = some (.ok (id, category, reader), rx')) :
    category = reg.categoryOf id ∧ ((type ≠ vendorpayload.type ∧ id = ⟨0, type⟩) ∨
      (type = vendorpayload.type ∧ 7 ≤ msglength ∧ msglength - 6 ≤ 2048 ∧ ∃ named,
        readVendorId junk rx = some (named, rx') ∧
        ((∃ ops, reg.ops named = some ops ∧ id = named ∧ reader = ops.parse) ∨
          (reg.ops named = none ∧ id = vendorpayload)))) := by
  unfold selectParser at select
  unfold Registry.categoryOf
  split at select
  next vendor =>
    split at select
    · cases select
    split at select
    · cases select
    obtain ⟨⟨number, rx₁⟩, read₁, select⟩ := bind_eq_some_iff.1 select
    obtain ⟨⟨number', rx₂⟩, read₂, select⟩ := bind_eq_some_iff.1 select
    have named : readVendorId junk rx = some (⟨number.getD junk.vendor, number'.getD junk.type⟩, rx₂) := by
      unfold readVendorId
      simp [read₁, bind_some, read₂, map_some]
    simp only at select
    split at select
    next ops known =>
      cases select
      exact ⟨by simp [known], .inr ⟨vendor, by omega, by omega, _, named, .inl ⟨ops, known, rfl, rfl⟩⟩⟩
    next unknown =>
      cases select
      exact ⟨by simp [reg.ops_vendorpayload], .inr ⟨vendor, by omega, by omega, _, named, .inr ⟨unknown, rfl⟩⟩⟩
  next other =>
    split at select
    next ops known =>
      cases select
      exact ⟨by simp [known], .inl ⟨other, rfl⟩⟩
    · cases select

theorem Part.ParsedBy.category_eq {p : Part ε} (h : p.ParsedBy reg) : p.category = reg.categoryOf p.id := by
  obtain ⟨reader, bytes, found, -⟩ := h
  unfold Registry.parserFor at found
  unfold Registry.categoryOf
  split at found
  · split at found
    · simp at found
    · simp only at found
      split at found
      next known =>
        rw [some.injEq, Prod.mk.injEq, Prod.mk.injEq] at found
        rw [← found.1, known, ← found.2.1]
        rfl
      · rw [some.injEq, Prod.mk.injEq, Prod.mk.injEq] at found
        rw [← found.1, reg.ops_vendorpayload, ← found.2.1]
        rfl
  · obtain ⟨ops, known, eq⟩ := map_eq_some_iff.1 found
    rw [Prod.mk.injEq, Prod.mk.injEq] at eq
    rw [← eq.1, known, ← eq.2.1]
    rfl

/-! ## Messages that are received -/

/-- A message of less than 65536 bytes is complete: the fragments are those of packets that pass
`capwap_sanity_check`. -/
def Received (rx : PacketRxmng) : Prop :=
  ∃ rx₀ : PacketRxmng, Headed rx₀.fragmentlist ∧ (rx₀.fragmentlist.flatMap payload).length < 65536 ∧
    rx₀.ctrlmsg.length < 65536 ∧ rx₀.complete = some rx

theorem left_of_readNumber {rx' : PacketRxmng} {size : ℕ} {n : Option ℕ}
    (read : rx.readNumber size = some (n, rx')) (h : rx.Readable) (pos : 0 < size)
    (allowed : size ≤ rx.readerpacketallowed) : rx'.Readable ∧ rx'.stream.length = rx.stream.length - size ∧
      rx.readerpacketallowed - size ≤ rx'.readerpacketallowed := by
  obtain ⟨rx'', after, eq⟩ := readNumber_spec h size allowed pos
  rw [eq, some.injEq, Prod.mk.injEq] at read
  obtain rfl := read.2
  have := h.allowed
  refine ⟨after.readable, ?_, ?_⟩
  · rw [after.stream, length_drop, length_take]
    omega
  · rw [after.allowed, length_take]
    omega

theorem frame_of_readNumber {rx' : PacketRxmng} {size : ℕ} {n : Option ℕ} (read : rx.readNumber size = some (n, rx')) :
    rx'.ctrlmsg = rx.ctrlmsg ∧ (size = 2 → ∀ m, n = some m → m < 65536) := by
  obtain ⟨⟨bytes, rx''⟩, block, eq⟩ := map_eq_some_iff.1 read
  obtain ⟨r, -, same⟩ := map_eq_some_iff.1 block
  rw [Prod.mk.injEq] at eq same
  obtain ⟨rfl, rfl⟩ := eq
  refine ⟨by rw [← same.2], fun two m number => ?_⟩
  obtain ⟨all, ⟨⟩⟩ := ite_none_left_eq_some.1 number
  exact (networkNumber_two ((not_not.1 all).trans two)).1

theorem Received.body (h : Received rx) :
    ({ rx with readpos := rx.readbodypos } : PacketRxmng).Readable ∧ rx.readbodypos.stream.length < 65533 ∧
      rx.ctrlmsg.length < 65536 := by
  obtain ⟨rx₀, headed, short, length, complete⟩ := h
  unfold PacketRxmng.complete at complete
  simp only [bind_eq_bind, bind_eq_some_iff] at complete
  obtain ⟨⟨type, rx₁⟩, read₁, ⟨seq, rx₂⟩, read₂, ⟨length', rx₃⟩, read₃, ⟨flags, rx₄⟩, read₄, eq⟩ := complete
  have start : ({ rx₀ with
      readpos := ⟨rx₀.fragmentlist, getHlen (rx₀.fragmentlist.headD []) * 4⟩
      readerpacketallowed := controlMessageSize } : PacketRxmng).Readable := by
    refine ⟨?_, ?_, show 8 < 65536 by decide⟩
    · cases eq : rx₀.fragmentlist with
      | nil => trivial
      | cons f rest =>
        rw [eq] at headed
        exact ⟨headed f mem_cons_self, fun g mem => headed g (mem_cons_of_mem _ mem)⟩
    · cases eq : rx₀.fragmentlist with
      | nil => simp [PacketRxmng.stream, ReadBlockFromPos.stream]
      | cons f rest =>
        rw [eq] at short
        exact short
  have size₀ := start.short
  obtain ⟨readable₁, size₁, (allowed₁ : 8 - 4 ≤ _)⟩ := left_of_readNumber read₁ start (by decide) (show 4 ≤ 8 by decide)
  obtain ⟨readable₂, size₂, (allowed₂ : rx₁.readerpacketallowed - 1 ≤ _)⟩ :=
    left_of_readNumber read₂ ⟨readable₁.within, readable₁.short, readable₁.allowed⟩ (by decide)
      (show 1 ≤ rx₁.readerpacketallowed by omega)
  obtain ⟨readable₃, size₃, (allowed₃ : rx₂.readerpacketallowed - 2 ≤ _)⟩ :=
    left_of_readNumber read₃ ⟨readable₂.within, readable₂.short, readable₂.allowed⟩ (by decide)
      (show 2 ≤ rx₂.readerpacketallowed by omega)
  obtain ⟨readable₄, size₄, -⟩ :=
    left_of_readNumber read₄ ⟨readable₃.within, readable₃.short, readable₃.allowed⟩ (by decide)
      (show 1 ≤ rx₃.readerpacketallowed by omega)
  cases eq
  refine ⟨⟨readable₄.within, readable₄.short, readable₄.allowed⟩, ?_, ?_⟩
  · have size₁ : rx₁.stream.length = _ := size₁
    have size₂ : rx₂.stream.length = rx₁.stream.length - 1 := size₂
    have size₃ : rx₃.stream.length = rx₂.stream.length - 2 := size₃
    have size₄ : rx₄.stream.length = rx₃.stream.length - 1 := size₄
    show rx₄.stream.length < 65533
    omega
  · show rx₄.ctrlmsg.length < 65536
    rw [(frame_of_readNumber read₄).1]
    show length'.getD rx₃.ctrlmsg.length < 65536
    cases length' with
    | some n => exact (frame_of_readNumber read₃).2 rfl n rfl
    | none =>
      show rx₃.ctrlmsg.length < 65536
      rw [(frame_of_readNumber read₃).1]
      show rx₂.ctrlmsg.length < 65536
      rw [(frame_of_readNumber read₂).1]
      show rx₁.ctrlmsg.length < 65536
      rw [(frame_of_readNumber read₁).1]
      exact length

/-- An accepted message of less than 65536 bytes is a sequence of elements, each parsed from exactly its value. -/
theorem parsingPacket_tiles (reg : Registry ε) (binding : ℕ) (junk : ElementId) (received : Received rx) :
    ∃ result s, parsingPacket reg binding junk rx = some (result, s) ∧ (result = .ok () → ∃ parts : List (Part ε),
        (∀ p ∈ parts, p.ParsedBy reg) ∧ parts.flatMap Part.bytes <+: rx.readbodypos.stream ∧
        rx.ctrlmsg.length = (parts.flatMap Part.bytes).length + 3 ∧
        (∀ p ∈ parts, p.category = .single → parts.countP (·.id = p.id) = 1) ∧
        s.messages.map (·.id) = (parts.map (·.id)).eraseDups ∧
        ∀ m ∈ s.messages, m.data = (parts.filter (·.id = m.id)).map (·.element)) ∧
      (rx.ctrlmsg.length < 3 ∨ rx.readbodypos.stream.length + 3 < rx.ctrlmsg.length → result ≠ .ok ()) := by
  obtain ⟨readable, short, length⟩ := received.body
  obtain ⟨result, s, ended, complete⟩ := parseLoop_spec reg binding junk
    (s := { rx := { rx with readpos := rx.readbodypos }, messages := [], elements := [] }) readable
    (Nat.lt_succ_self _) (Nat.mod_lt (rx.ctrlmsg.length + 65536 - 3) (show 0 < 65536 by decide))
  refine ⟨result, s, ended, fun accepted => ?_, fun wrong accepted => ?_⟩
  all_goals
    obtain ⟨parts, parsed, stream, total, -, added⟩ := complete accepted
    have stream : rx.readbodypos.stream = parts.flatMap Part.bytes ++ s.rx.stream := stream
    have size := congrArg List.length stream
    rw [length_append] at size
  · have grouped := (grouped_nil reg.categoryOf).addAll (fun p mem => ?_) added
    · rw [nil_append] at grouped
      refine ⟨parts, fun p mem => (parsed p mem).1, ⟨_, stream.symm⟩,
        by omega, fun p mem one => ?_, ?_, fun m mem => ?_⟩
      · obtain ⟨m, there, same⟩ := (grouped.mem_ids p.id).2 ⟨p.toParsed, mem_map_of_mem mem, rfl⟩
        have kind : m.category = .single := by
          rw [grouped.category_eq m there, same, ← (parsed p mem).1.category_eq, one]
        have alone := grouped.single m there kind
        rw [grouped.data m there, length_map, List.filter_map, length_map, same] at alone
        rw [countP_eq_length_filter]
        exact alone
      · rw [grouped.ids, List.map_map]
        rfl
      · rw [grouped.data m mem, List.filter_map, List.map_map]
        rfl
    · obtain ⟨q, there, rfl⟩ := mem_map.1 mem
      exact (parsed q there).1.category_eq
  · omega

/-- `capwap_resultcode_element_parsing`. -/
def resultcodeParsing : Reader ℕ :=
  .ready fun length =>
    if length ≠ 4 then .done none
    else .block 4 fun code => .done (if 22 < networkNumber code then none else some (networkNumber code))

def resultcodes : Registry ℕ where
  ops id := if id = ⟨0, 33⟩ then some ⟨.single, resultcodeParsing⟩
    else if id = vendorpayload then some ⟨.array, .ready fun n => .block n fun bytes => .done bytes.length⟩ else none
  payload := ⟨.array, .ready fun n => .block n fun bytes => .done bytes.length⟩
  ops_vendorpayload := rfl
  unknownVendor n _ := .block n fun bytes => .done bytes.length

def resultcodeMessage : PacketRxmng :=
  { rxmngCreateMessage with
    fragmentlist := [[0, 16, 2, 0, 0, 0, 0, 0, 0, 0, 0, 14, 1, 0, 33, 0] ++ [0, 33, 0, 4, 0, 0, 0, 7] ++
      [0, 37, 0, 7, 0, 0, 0, 9, 0, 1, 65] ++ [0, 37, 0, 7, 0, 0, 0, 9, 0, 1, 66]] }

/-- A Result Code and two Vendor Specific Payloads, which come into one array. -/
theorem parsingPacket_tiles_resultcode : ∃ rx, resultcodeMessage.complete = some rx ∧ Received rx ∧
      ∃ s, parsingPacket resultcodes 1 ⟨0, 0⟩ rx = some (.ok (), s) ∧
        s.messages = [⟨⟨0, 33⟩, .single, [7]⟩, ⟨vendorpayload, .array, [1, 1]⟩] ∧
        ∃ parts : List (Part ℕ), (∀ p ∈ parts, p.ParsedBy resultcodes) ∧
          rx.ctrlmsg.length = (parts.flatMap Part.bytes).length + 3 := by
  have run : (resultcodeMessage.complete.bind (parsingPacket resultcodes 1 ⟨0, 0⟩)).map
      (fun r => (r.1, r.2.messages)) =
        some (.ok (), [⟨⟨0, 33⟩, .single, [7]⟩, ⟨vendorpayload, .array, [1, 1]⟩]) := by decide +kernel
  obtain ⟨⟨result, s⟩, bound, eq⟩ := map_eq_some_iff.1 run
  obtain ⟨rx, complete, parsed⟩ := bind_eq_some_iff.1 bound
  rw [Prod.mk.injEq] at eq
  obtain ⟨rfl, messages⟩ := eq
  have received : Received rx := ⟨resultcodeMessage, by decide, by decide, by decide, complete⟩
  refine ⟨rx, complete, received, s, parsed, messages, ?_⟩
  obtain ⟨result, s', parsed', accepted, -⟩ := parsingPacket_tiles resultcodes 1 ⟨0, 0⟩ received
  rw [parsed, some.injEq, Prod.mk.injEq] at parsed'
  obtain ⟨parts, all, -, total, -⟩ := accepted parsed'.1.symm
  exact ⟨parts, all, total⟩

end OpenWifi.CapwapElement
