import OpenWifi.CapwapElement.Tiling
import Mathlib.Data.List.Induction
import Mathlib.Data.List.Nodup

/-!
# Who frees the elements

`capwap_free_parsed_packet` frees the elements in the list of a packet.  All elements that the parsers gave are in it,
unless one of a kind came a second time: that one is dropped, and nobody frees it.
-/

namespace OpenWifi.CapwapElement

open List Option CapwapProtocol PacketRxmng

variable {ε : Type*}

/-- `struct capwap_parsed_packet` in memory. -/
structure ParsedPacket (ε : Type*) where
  rxmngpacket : Option PacketRxmng
  messages : Option (List (MessageElement ε))

/-- `capwap_free_parsed_packet`: the elements that are freed. -/
def freeParsedPacket (packet : ParsedPacket ε) : List ε :=
  match packet.rxmngpacket, packet.messages with
  | some _, some messages => messages.flatMap (·.data)
  | _, _ => []

theorem perm_flatMap_filter {α κ : Type*} [DecidableEq κ] (f : α → κ) {keys : List κ} (nodup : keys.Nodup)
    {l : List α} (all : ∀ x ∈ l, f x ∈ keys) : (keys.flatMap fun k => l.filter (f · = k)).Perm l := by
  induction l with
  | nil => simp
  | cons x l ih =>
    obtain ⟨before, after, rfl⟩ := append_of_mem (all x mem_cons_self)
    have rest := ih fun y mem => all y (mem_cons_of_mem _ mem)
    rw [nodup_middle, nodup_cons, mem_append, not_or] at nodup
    have others : ∀ keys : List κ, f x ∉ keys →
        (keys.flatMap fun k => (x :: l).filter (f · = k)) = keys.flatMap fun k => l.filter (f · = k) := by
      intro keys absent
      refine flatMap_congr fun k mem => ?_
      have other : f x ≠ k := fun same => absent (same ▸ mem)
      rw [filter_cons_of_neg (by simpa using other)]
    rw [flatMap_append, flatMap_cons] at rest ⊢
    rw [others before nodup.1.1, others after nodup.1.2, filter_cons_of_pos (by simp)]
    exact perm_middle.trans (rest.cons x)

theorem nodup_eraseDups {κ : Type*} [DecidableEq κ] (l : List κ) : l.eraseDups.Nodup := by
  induction l using reverseRecOn with
  | nil => simp
  | append_singleton l k ih =>
    rw [eraseDups_append]
    by_cases known : k ∈ l
    · simpa [removeAll, known] using ih
    · have new : ∀ x ∈ l, x ≠ k := fun x mem same => known (same ▸ mem)
      simpa [removeAll, known, eraseDups_cons, nodup_append] using ⟨ih, new⟩

theorem Grouped.perm {category : ElementId → Category} {elements : List (Parsed ε)}
    {messages : List (MessageElement ε)} (h : Grouped category elements messages) :
    (messages.flatMap (·.data)).Perm (elements.map (·.element)) := by
  have data : messages.flatMap (·.data) =
      ((messages.map (·.id)).flatMap fun id => elements.filter (·.id = id)).map (·.element) := by
    rw [flatMap_map, map_flatMap]
    exact flatMap_congr fun m mem => h.data m mem
  rw [data, h.ids]
  refine (perm_flatMap_filter Parsed.id (nodup_eraseDups _) fun p mem => ?_).map _
  rw [mem_eraseDups]
  exact mem_map_of_mem mem

def Registry.idOf (reg : Registry ε) (junk : ElementId) (type : ℕ) (bytes : List UInt8) : ElementId :=
  if type = vendorpayload.type then
    let vendorId : ElementId :=
      ⟨if (bytes.take 4).length = 4 then networkNumber (bytes.take 4) else junk.vendor,
        if ((bytes.drop 4).take 2).length = 2 then networkNumber ((bytes.drop 4).take 2) else junk.type⟩
    if (reg.ops vendorId).isSome then vendorId else vendorpayload
  else ⟨0, type⟩

def Registry.elementIds (reg : Registry ε) (junk : ElementId) : ℕ → List UInt8 → List ElementId
  | 0, _ => []
  | fuel + 1, bytes =>
    if bytes.length < 4 then []
    else
      reg.idOf junk (networkNumber (bytes.take 2)) (bytes.drop 4) ::
        reg.elementIds junk fuel ((bytes.drop 4).drop (networkNumber ((bytes.drop 2).take 2)))

/-- None of the first elements of the message is the second of a kind of which there may be one. -/
def Registry.OneOfAKind (reg : Registry ε) (junk : ElementId) (rx : PacketRxmng) (reached : ℕ) : Prop :=
  ∀ id, reg.categoryOf id = .single →
    ((reg.elementIds junk rx.readbodypos.stream.length rx.readbodypos.stream).take reached).count id ≤ 1

variable {reg : Registry ε} {binding bodylength : ℕ} {junk : ElementId} {rx rx' : PacketRxmng} {s s' : ParseState ε}

theorem selectParser_id {type : ℕ} {id : ElementId} {category : Category} {reader : Reader ε} (h : rx.Readable)
    (selected : selectParser reg junk type rx.readerpacketallowed rx = some (.ok (id, category, reader), rx')) :
    id = reg.idOf junk type rx.stream ∧ category = reg.categoryOf id := by
  obtain ⟨kind, chosen⟩ := selectParser_ok selected
  refine ⟨?_, kind⟩
  unfold Registry.idOf
  rcases chosen with ⟨plain, rfl⟩ | ⟨vendor, long, -, named, read, chosen⟩
  · rw [if_neg plain]
  obtain ⟨rx₁, first, read₁⟩ := readNumber_spec h 4 (by omega) (by decide)
  have len₁ : (rx.stream.take 4).length ≤ 4 := length_take_le _ _
  have allowed : 2 ≤ rx₁.readerpacketallowed := by
    have := first.allowed
    have := h.allowed
    omega
  obtain ⟨rx₂, second, read₂⟩ := readNumber_spec first.readable 2 allowed (by decide)
  have stream : rx₁.stream = rx.stream.drop 4 := by
    rw [first.stream, length_take]
    rcases Nat.le_total 4 rx.stream.length with long | short
    · rw [Nat.min_eq_left long]
    · rw [Nat.min_eq_right short, drop_length, drop_eq_nil_of_le short]
  simp only [readVendorId, read₁, read₂, bind_some, map_some, stream, some.injEq, Prod.mk.injEq] at read
  rw [if_pos vendor]
  have vendorId : (⟨if (rx.stream.take 4).length = 4 then networkNumber (rx.stream.take 4) else junk.vendor,
      if ((rx.stream.drop 4).take 2).length = 2 then networkNumber ((rx.stream.drop 4).take 2) else junk.type⟩ :
        ElementId) = named := by
    rw [← read.1]
    congr 1
    all_goals split_ifs <;> first | rfl | contradiction
  simp only [vendorId]
  rcases chosen with ⟨ops, known, rfl, -⟩ | ⟨unknown, rfl⟩
  · rw [known]
    rfl
  · rw [unknown]
    rfl

theorem of_readNumber_two {n : ℕ} (h : rx.Readable) (allowed : 2 ≤ rx.readerpacketallowed)
    (read : rx.readNumber 2 = some (some n, rx')) :
    rx'.Readable ∧ 2 ≤ rx.stream.length ∧ n = networkNumber (rx.stream.take 2) ∧ n < 65536 ∧
      rx'.stream = rx.stream.drop 2 ∧ rx'.readerpacketallowed = rx.readerpacketallowed - 2 := by
  rcases readNumber_two h allowed with ⟨_, eq, -⟩ | ⟨n, rx', eq, readable, lt, stream, left⟩
  · cases eq.symm.trans read
  · cases eq.symm.trans read
    rw [stream]
    exact ⟨readable, by simp [be16], (networkNumber_be16 lt).symm, lt, rfl, left⟩

/-- What one round of the loop does with the elements: a parser gives none, or it gives one with the id that the bytes
tell, which is added, or dropped with an error. -/
theorem parseElement_logged {r : Except ParsingError ℕ} (h : s.rx.Readable)
    (parsed : parseElement reg binding junk bodylength s = some (r, s')) :
    (s'.elements = s.elements ∧ s'.messages = s.messages ∧ ∃ e, r = .error e) ∨ ∃ p : Parsed ε, 4 ≤ s.rx.stream.length ∧
        p.id = reg.idOf junk (networkNumber (s.rx.stream.take 2)) (s.rx.stream.drop 4) ∧
        p.category = reg.categoryOf p.id ∧ s'.elements = s.elements ++ [p] ∧
        (addElement s.messages p = some s'.messages ∨
          addElement s.messages p = none ∧ s'.messages = s.messages ∧ ∃ e, r = .error e) := by
  rcases parseElement_cases parsed with ⟨-, nothing⟩ | ⟨id, category, reader, rx₃, value, chosen, run, failed⟩
  · exact .inl nothing
  obtain ⟨type, msglength, rx₁, rx₂, read₁, read₂, -, -, select⟩ := chosen
  have four : ({ s.rx with readerpacketallowed := 4 } : PacketRxmng).Readable := Readable.allow h (by decide)
  obtain ⟨readable₁, long₁, rfl, -, stream₁, allowed₁⟩ := of_readNumber_two four (show 2 ≤ 4 by decide) read₁
  obtain ⟨readable₂, long₂, -, lt, stream₂, -⟩ :=
    of_readNumber_two readable₁ (allowed₁ ▸ show 2 ≤ 4 - 2 by decide) read₂
  have stream₁ : rx₁.stream = s.rx.stream.drop 2 := stream₁
  rw [stream₁, drop_drop] at stream₂
  rw [stream₁, length_drop] at long₂
  obtain ⟨idOf, kind⟩ := selectParser_id (Readable.allow readable₂ lt) select
  rcases parseValue_cases run with ⟨-, elements, messages, r⟩ | ⟨element, -, -, elements, messages⟩
  · exact .inl ⟨elements, messages, failed r⟩
  · refine .inr ⟨⟨id, category, element⟩,
      by omega, ?_, kind, elements, messages.imp_right fun ⟨dropped, same, r⟩ => ⟨dropped, same, failed r⟩⟩
    rw [idOf]
    exact congrArg (reg.idOf junk _) stream₂

def Kept (reg : Registry ε) (s : ParseState ε) : Prop :=
  Grouped reg.categoryOf s.elements s.messages ∨
    ∃ elements p, s.elements = elements ++ [p] ∧ Grouped reg.categoryOf elements s.messages ∧
      reg.categoryOf p.id = .single ∧ p.id ∈ elements.map (·.id)

theorem parseLoop_logged {result : Except ParsingError Unit} {fuel n : ℕ} (h : s.rx.Readable)
    (enough : s.rx.stream.length ≤ n) (grouped : Grouped reg.categoryOf s.elements s.messages)
    (parsed : parseLoop reg binding junk fuel bodylength s = some (result, s')) :
    Kept reg s' ∧ ∃ new, s'.elements = s.elements ++ new ∧ new.map (·.id) <+: reg.elementIds junk n s.rx.stream := by
  fun_induction parseLoop reg binding junk fuel bodylength s generalizing n with
  | case1 =>
    cases parsed
    exact ⟨.inl grouped, [], by simp, nil_prefix⟩
  | case2 => cases parsed
  | case3 fuel bodylength s ih =>
    obtain ⟨⟨r, s₁⟩, round, parsed⟩ := bind_eq_some_iff.1 parsed
    rcases parseElement_logged h round with ⟨elements, messages, e, rfl⟩ | ⟨p, long, pid, kind, elements, messages⟩
    · cases parsed
      rw [← elements, ← messages] at grouped
      exact ⟨.inl grouped, [], by simp [elements], nil_prefix⟩
    -- the scan comes to this element too
    obtain ⟨k, rfl⟩ : ∃ k, n = k + 1 := ⟨n - 1, by omega⟩
    have scan : reg.elementIds junk (k + 1) s.rx.stream = p.id :: reg.elementIds junk k
        ((s.rx.stream.drop 4).drop (networkNumber ((s.rx.stream.drop 2).take 2))) := by
      rw [Registry.elementIds, if_neg (by omega), pid]
    have one : [p].map (·.id) <+: reg.elementIds junk (k + 1) s.rx.stream := by
      rw [scan]
      exact prefix_cons_inj _ |>.2 nil_prefix
    rcases messages with added | ⟨dropped, messages, e, rfl⟩
    · have grouped₁ := grouped.add kind added
      rw [← elements] at grouped₁
      cases r with
      | error e =>
        cases parsed
        exact ⟨.inl grouped₁, [p], elements, one⟩
      | ok rest =>
        obtain ⟨_, _, round', readable, goesOn⟩ := parseElement_spec reg binding junk (bodylength + 1) h
        rw [round, some.injEq, Prod.mk.injEq] at round'
        obtain ⟨rfl, rfl⟩ := round'
        obtain ⟨q, -, -, stream, -, -, -⟩ := goesOn rest rfl
        have size₁ := congrArg List.length stream
        rw [length_append, Part.length_bytes] at size₁
        have short := h.short
        have next : s₁.rx.stream = (s.rx.stream.drop 4).drop (networkNumber ((s.rx.stream.drop 2).take 2)) := by
          have length : networkNumber (be16 q.value.length) = q.value.length := networkNumber_be16 (by omega)
          rw [stream]
          simp only [Part.bytes, be16, cons_append, nil_append, drop_succ_cons, drop_zero,
            take_succ_cons, take_zero] at length ⊢
          rw [length, drop_left]
        obtain ⟨kept, new, elements', ids⟩ := ih _ _ (n := k) readable (by omega) grouped₁ parsed
        refine ⟨kept, p :: new, by rw [elements', elements, append_assoc, singleton_append], ?_⟩
        rw [scan, map_cons, ← next]
        exact prefix_cons_inj _ |>.2 ids
    · cases parsed
      obtain ⟨single, m, there, same⟩ := addElement_eq_none dropped
      refine ⟨.inr ⟨s.elements, p, elements, messages ▸ grouped, kind ▸ single, ?_⟩, [p], elements, one⟩
      obtain ⟨q, mem, eq⟩ := (grouped.mem_ids p.id).1 ⟨m, there, same⟩
      exact mem_map.2 ⟨q, mem, eq⟩

theorem freed_perm {result : Except ParsingError Unit} (received : Received rx)
    (oneOfAKind : reg.OneOfAKind junk rx s.elements.length)
    (parsed : parsingPacket reg binding junk rx = some (result, s)) :
    (freeParsedPacket ⟨some rx, some s.messages⟩).Perm (s.elements.map (·.element)) := by
  obtain ⟨readable, -, -⟩ := received.body
  obtain ⟨kept, new, elements, ids⟩ := parseLoop_logged (n := rx.readbodypos.stream.length) readable le_rfl
    (grouped_nil reg.categoryOf) parsed
  rw [nil_append] at elements
  rcases kept with grouped | ⟨before, p, split, -, single, again⟩
  · exact grouped.perm
  · exfalso
    have once := oneOfAKind p.id single
    have reached : (reg.elementIds junk rx.readbodypos.stream.length rx.readbodypos.stream).take
        (new.map (·.id)).length = new.map (·.id) := (prefix_iff_eq_take.1 ids).symm
    rw [elements, ← length_map Parsed.id, reached] at once
    have twice : 2 ≤ (new.map (·.id)).count p.id := by
      rw [← elements, split, map_append, count_append]
      have := count_pos_iff.2 again
      rw [map_singleton, count_singleton_self]
      omega
    exact absurd twice (Nat.not_le.2 (Nat.lt_succ_of_le once))

end OpenWifi.CapwapElement
