import OpenWifi.OpenCapwap.HostileFragments
import Mathlib.Algebra.Order.BigOperators.Group.Finset

/-!
# Fragments of a proper sender

The fragments that `CWAssembleMessage` makes of a control message, delivered to `CWProtocolParseFragment` in any order
and with repetitions.
-/

namespace OpenWifi.OpenCapwap

open Finset

/-- How a message is cut: into `num` pieces of `group * 8` bytes, of which the last one may be shorter. -/
structure Cut (body : List UInt8) where
  group : ℕ
  num : ℕ
  positive : 0 < group
  many : 2 ≤ num
  enough : body.length ≤ num * (group * 8)
  notMore : (num - 1) * (group * 8) < body.length

namespace Cut

variable {body : List UInt8} (cut : Cut body)

def piece (i : ℕ) : List UInt8 := (body.drop (i * (cut.group * 8))).take (cut.group * 8)

theorem length_piece (i : ℕ) : (cut.piece i).length = min (cut.group * 8) (body.length - i * (cut.group * 8)) := by
  simp [piece]

theorem start_lt {i : ℕ} (lt : i < cut.num) : i * (cut.group * 8) < body.length :=
  lt_of_le_of_lt (Nat.mul_le_mul_right _ (by omega)) cut.notMore

theorem length_piece_pos {i : ℕ} (lt : i < cut.num) : 0 < (cut.piece i).length := by
  have := cut.start_lt lt
  have := cut.positive
  rw [length_piece]
  omega

theorem take_piece (i : ℕ) :
    body.take (i * (cut.group * 8)) ++ cut.piece i = body.take ((i + 1) * (cut.group * 8)) := by
  rw [Nat.succ_mul, List.take_add]
  rfl

theorem length_piece_of_lt {i : ℕ} (lt : i + 1 < cut.num) : (cut.piece i).length = cut.group * 8 := by
  have := cut.start_lt lt
  rw [Nat.succ_mul] at this
  rw [length_piece]
  omega

theorem sum_length_piece : ∑ i ∈ range cut.num, (cut.piece i).length = body.length := by
  have upTo (k : ℕ) : ∑ i ∈ range k, (cut.piece i).length = (body.take (k * (cut.group * 8))).length := by
    induction k with
    | zero => simp
    | succ k ih => rw [sum_range_succ, ih, ← take_piece, List.length_append]
  rw [upTo, List.take_of_length_le cut.enough]

theorem last_piece {i : ℕ} (last : i + 1 = cut.num) : cut.piece i = body.drop (i * (cut.group * 8)) := by
  have := cut.enough
  rw [← last, Nat.succ_mul] at this
  exact List.take_of_length_le (by rw [List.length_drop]; omega)

end Cut

theorem alignedPMTU_pos {PMTU : ℤ} {size : ℕ} (fragmented : fragmentsNum PMTU size ≠ 1) : 0 < alignedPMTU PMTU := by
  by_contra none
  exact fragmented (if_pos (by omega))

theorem fragmentsNum_bounds {PMTU : ℤ} {size : ℕ} (content : 0 < size) (room : 0 < alignedPMTU PMTU) :
    0 < fragmentsNum PMTU size ∧ size ≤ fragmentsNum PMTU size * alignedPMTU PMTU ∧
      (fragmentsNum PMTU size - 1) * alignedPMTU PMTU < size := by
  have parts := Nat.div_add_mod' size (alignedPMTU PMTU)
  have rest := Nat.mod_lt size room
  rw [fragmentsNum, if_neg (by omega)]
  by_cases even : size % alignedPMTU PMTU = 0
  · rw [if_neg (by simpa using even), Nat.add_zero]
    obtain ⟨k, quotient⟩ : ∃ k, size / alignedPMTU PMTU = k + 1 :=
      Nat.exists_eq_succ_of_ne_zero fun none => by rw [none] at parts; omega
    rw [quotient, Nat.succ_mul] at parts
    rw [quotient, Nat.succ_mul, Nat.add_sub_cancel]
    omega
  · rw [if_pos (by simpa using even), Nat.succ_mul, Nat.add_sub_cancel]
    exact ⟨Nat.succ_pos _, by omega, by omega⟩

def cutOf (PMTU : ℤ) (body : List UInt8) (content : 0 < body.length) (fragmented : fragmentsNum PMTU body.length ≠ 1) :
    Cut body where
  group := (PMTU - 25 - 8).toNat / 8
  num := fragmentsNum PMTU body.length
  positive := by
    have := alignedPMTU_pos fragmented
    unfold alignedPMTU at this
    omega
  many := by
    have := (fragmentsNum_bounds content (alignedPMTU_pos fragmented)).1
    omega
  enough := (fragmentsNum_bounds content (alignedPMTU_pos fragmented)).2.1
  notMore := (fragmentsNum_bounds content (alignedPMTU_pos fragmented)).2.2

namespace ControlMessage

variable (m : ControlMessage) (cut : Cut m.body)

def packet (i : ℕ) : List UInt8 :=
  assembleTransportHeader m.radioMac (m.fragmentValues (i * (cut.group * 8)) (i + 1 = cut.num)) ++ cut.piece i

def fragment (i : ℕ) : Fragment where
  fragmentID := m.fragmentID % 65536
  fragmentOffset := i * cut.group
  last := if i + 1 = cut.num then 1 else 0
  data := cut.piece i

theorem assembleFragments_eq (count start : ℕ) (all : start + count = cut.num) :
    m.assembleFragments (cut.group * 8) cut.num count (start * (cut.group * 8)) =
      (List.range' start count).map (m.packet cut) := by
  induction count generalizing start with
  | zero => rfl
  | succ count ih =>
    have last : count = 0 ↔ start + 1 = cut.num := by omega
    simp only [assembleFragments, List.range'_succ, List.map_cons, packet, last]
    by_cases h : start + 1 = cut.num
    · obtain rfl := last.2 h
      rw [if_pos h, cut.last_piece h, assembleFragments, List.range'_zero, List.map_nil]
      rw [List.take_of_length_le]
      rw [List.length_drop, ← h, Nat.add_sub_cancel]
    · have offset : start * (cut.group * 8) + cut.group * 8 = (start + 1) * (cut.group * 8) := (Nat.succ_mul _ _).symm
      rw [if_neg h, offset, ih (start + 1) (by omega)]
      rfl

theorem parse_packet (dataFlag copies : Bool) (short : m.body.length < 65536) {i : ℕ} (lt : i < cut.num) :
    ∃ parsed, parseTransportHeader dataFlag copies (m.packet cut i) = .ok (parsed, cut.piece i) ∧
      parsed.values.isFragment = 1 ∧
      ⟨parsed.values.fragmentID, parsed.values.fragmentOffset, parsed.values.last, cut.piece i⟩ = m.fragment cut i := by
  have without : (m.fragmentValues (i * (cut.group * 8)) (i + 1 = cut.num)).bindingValues = none := rfl
  obtain ⟨dataMsgType, read⟩ := parse_withoutBinding dataFlag copies m.radioMac without (cut.piece i)
  refine ⟨_, read, rfl, ?_⟩
  have start := cut.start_lt lt
  have offset : i * (cut.group * 8) / 8 % 8192 = i * cut.group := by
    rw [← Nat.mul_assoc] at start ⊢
    omega
  simp only [sentValues, fragmentValues, fragment, offset]
  by_cases last : i + 1 = cut.num <;> simp [last]

theorem protocolParseFragment_packet (dataFlag copies : Bool) (short : m.body.length < 65536) {i : ℕ} (lt : i < cut.num)
    (fragments : List Fragment) :
    protocolParseFragment dataFlag copies (m.packet cut i) fragments = parseNewFragment fragments
      (m.fragment cut i) := by
  obtain ⟨parsed, read, fragment, new⟩ := m.parse_packet cut dataFlag copies short lt
  funext fuel
  rw [protocolParseFragment, read]
  simp only [fragment, new]
  rfl

/-! ## Collected fragments -/

variable {m cut} {collected : List ℕ} {i j : ℕ}

theorem packet_inj (short : m.body.length < 65536) (ltI : i < cut.num) (ltJ : j < cut.num)
    (same : m.packet cut i = m.packet cut j) : i = j := by
  obtain ⟨parsedI, readI, -, newI⟩ := m.parse_packet cut false true short ltI
  obtain ⟨parsedJ, readJ, -, newJ⟩ := m.parse_packet cut false true short ltJ
  obtain ⟨parsed_eq, piece_eq⟩ := Prod.mk.inj (Except.ok.inj (readI.symm.trans (same ▸ readJ)))
  rw [parsed_eq, piece_eq, newJ] at newI
  have offsets : j * cut.group = i * cut.group := congrArg Fragment.fragmentOffset newI
  exact (Nat.eq_of_mul_eq_mul_right cut.positive offsets).symm

variable (m cut) in
theorem oneMessage_fragments (nodup : collected.Nodup) :
    OneMessage (m.fragmentID % 65536) (collected.map (m.fragment cut)) where
  same := by
    intro f mem
    obtain ⟨i, -, rfl⟩ := List.mem_map.1 mem
    rfl
  distinct := by
    rw [DistinctOffsets, List.map_map]
    exact nodup.map fun i j same => Nat.eq_of_mul_eq_mul_right cut.positive same

theorem mem_offsets : (m.fragment cut i).fragmentOffset ∈ (collected.map (m.fragment cut)).map Fragment.fragmentOffset ↔
    i ∈ collected := by
  rw [List.map_map, List.mem_map]
  constructor
  · rintro ⟨j, mem, same⟩
    rwa [Nat.eq_of_mul_eq_mul_right cut.positive same] at mem
  · exact fun mem => ⟨i, mem, rfl⟩

theorem collect_fragments (nodup : collected.Nodup) : collect (collected.map (m.fragment cut)) (m.fragment cut i) =
      if i ∈ collected then none else some ((i :: collected).map (m.fragment cut)) := by
  have one := oneMessage_fragments m cut nodup
  have own : (m.fragment cut i).fragmentID = m.fragmentID % 65536 := rfl
  have cases := one.collect_cases own
  rw [mem_offsets] at cases
  rcases cases with ⟨eq, copy⟩ | ⟨eq, fresh⟩
  · rw [eq, if_pos copy]
  · rw [eq, if_neg fresh, List.map_cons]

theorem totalSize_fragments :
    totalSize (collected.map (m.fragment cut)) = if cut.num - 1 ∈ collected then m.body.length else 0 := by
  have many := cut.many
  have fold (total : ℕ) : (collected.map (m.fragment cut)).foldl
      (fun total f => if f.last = 1 then f.fragmentOffset * 8 + f.data.length else total) total =
        if cut.num - 1 ∈ collected then m.body.length else total := by
    induction collected generalizing total with
    | nil => simp
    | cons i collected ih =>
      rw [List.map_cons, List.foldl_cons, ih]
      by_cases last : i + 1 = cut.num
      · have size : (m.fragment cut i).fragmentOffset * 8 + (m.fragment cut i).data.length = m.body.length := by
          have := cut.start_lt (i := i) (by omega)
          simp only [fragment, cut.last_piece last, List.length_drop, ← Nat.mul_assoc] at this ⊢
          omega
        have mem : cut.num - 1 ∈ i :: collected := List.mem_cons.2 (.inl (by omega))
        rw [if_pos (show (m.fragment cut i).last = 1 from if_pos last), size, if_pos mem, ite_self]
      · have other : (cut.num - 1 ∈ i :: collected) = (cut.num - 1 ∈ collected) := by
          rw [List.mem_cons, eq_iff_iff, or_iff_right (by omega)]
        simp [if_neg (show (m.fragment cut i).last ≠ 1 by simp [fragment, last]), other]
  exact fold 0

theorem currentSize_fragments (nodup : collected.Nodup) :
    currentSize (collected.map (m.fragment cut)) = ∑ i ∈ collected.toFinset, (cut.piece i).length := by
  rw [currentSize, List.map_map, List.sum_toFinset _ nodup]
  rfl

theorem not_complete (nodup : collected.Nodup) (own : ∀ i ∈ collected, i < cut.num) (lt : j < cut.num)
    (missing : j ∉ collected) : ¬ Complete (collected.map (m.fragment cut)) := by
  rintro ⟨known, same⟩
  rw [totalSize_fragments] at known same
  split_ifs at known same with last
  · have subset : insert j collected.toFinset ⊆ range cut.num := by
      intro i mem
      rcases mem_insert.1 mem with rfl | mem
      · exact mem_range.2 lt
      · exact mem_range.2 (own i (List.mem_toFinset.1 mem))
    have bound := sum_le_sum_of_subset (f := fun i => (cut.piece i).length) subset
    rw [sum_insert (by simpa using missing), cut.sum_length_piece, ← currentSize_fragments nodup, same] at bound
    have := cut.length_piece_pos lt
    omega
  · exact known rfl

variable (m cut) in
theorem complete_of_all (nodup : collected.Nodup) (all : ∀ i, i ∈ collected ↔ i < cut.num) :
    Complete (collected.map (m.fragment cut)) ∧ totalSize (collected.map (m.fragment cut)) = m.body.length := by
  have many := cut.many
  have total : totalSize (collected.map (m.fragment cut)) = m.body.length := by
    rw [totalSize_fragments, if_pos ((all _).2 (by omega))]
  have range_eq : collected.toFinset = range cut.num := by
    ext i
    rw [List.mem_toFinset, all, mem_range]
  refine ⟨⟨?_, ?_⟩, total⟩
  · have := cut.notMore
    omega
  · rw [currentSize_fragments nodup, total, range_eq, cut.sum_length_piece]

variable (m cut) in
theorem reassembleLoop_all (nodup : collected.Nodup) (all : ∀ i, i ∈ collected ↔ i < cut.num) (i : ℕ)
    (lt : i < cut.num) :
    Returns (fun fuel => reassembleLoop (collected.map (m.fragment cut)) m.body.length fuel (i * cut.group)
      (m.body.take (i * (cut.group * 8)))) (.message m.body) := by
  have distinct := (oneMessage_fragments m cut nodup).distinct
  have mem : m.fragment cut i ∈ collected.map (m.fragment cut) := List.mem_map_of_mem ((all i).2 lt)
  have fits : ¬ m.body.length < (m.body.take (i * (cut.group * 8))).length + (m.fragment cut i).data.length := by
    rw [fragment, ← List.length_append, cut.take_piece, List.length_take]
    omega
  have turn (fuel : ℕ) := reassembleLoop_at distinct mem m.body.length fuel (m.body.take (i * (cut.group * 8)))
  simp only [if_neg fits] at turn
  simp only [fragment, cut.take_piece] at turn
  by_cases last : i + 1 = cut.num
  · refine Returns.step (Returns.of_forall fun _ => rfl) fun fuel => ?_
    rw [turn, if_pos (if_pos last), last, List.take_of_length_le cut.enough]
  · have length : (cut.piece i).length / 8 = cut.group := by
      rw [cut.length_piece_of_lt (by omega)]
      omega
    have next := reassembleLoop_all nodup all (i + 1) (by omega)
    refine next.step fun fuel => ?_
    rw [turn, if_neg (by simp [last]), length, Nat.succ_mul i cut.group]
termination_by cut.num - i

/-! ## Calls -/

variable {dataFlag copies : Bool}

theorem calls_copy (short : m.body.length < 65536) (nodup : collected.Nodup) (lt : i < cut.num) (copy : i ∈ collected) :
    Calls dataFlag copies (collected.map (m.fragment cut)) (m.packet cut i)
      (.error .needResource, collected.map (m.fragment cut)) := by
  refine Returns.of_forall fun fuel => ?_
  rw [protocolParseFragment_packet m cut dataFlag copies short lt, parseNewFragment, collect_fragments nodup,
    if_pos copy]

theorem calls_new (short : m.body.length < 65536) (nodup : (i :: collected).Nodup)
    (own : ∀ k ∈ i :: collected, k < cut.num)
    (lt : j < cut.num) (missing : j ∉ i :: collected) :
    Calls dataFlag copies (collected.map (m.fragment cut)) (m.packet cut i)
      (.error .needResource, (i :: collected).map (m.fragment cut)) := by
  refine Returns.of_forall fun fuel => ?_
  rw [protocolParseFragment_packet m cut dataFlag copies short (own i (by simp)), parseNewFragment,
    collect_fragments (List.nodup_cons.1 nodup).2, if_neg (List.nodup_cons.1 nodup).1]
  exact if_neg (not_complete nodup own lt missing)

theorem calls_last (short : m.body.length < 65536) (nodup : (i :: collected).Nodup)
    (all : ∀ k, k ∈ i :: collected ↔ k < cut.num) :
    Calls dataFlag copies (collected.map (m.fragment cut)) (m.packet cut i) (.ok m.body, []) := by
  obtain ⟨complete, total⟩ := complete_of_all m cut nodup all
  have many := cut.many
  have loop := reassembleLoop_all m cut nodup all 0 (by omega)
  rw [Nat.zero_mul, Nat.zero_mul, List.take_zero, ← total] at loop
  have call_eq : protocolParseFragment dataFlag copies (m.packet cut i) (collected.map (m.fragment cut)) = fun fuel =>
      (reassembleLoop ((i :: collected).map (m.fragment cut)) (totalSize ((i :: collected).map (m.fragment cut))) fuel 0
        []).map (finish ((i :: collected).map (m.fragment cut))) := by
    funext fuel
    rw [protocolParseFragment_packet m cut dataFlag copies short ((all i).1 (by simp)), parseNewFragment,
      collect_fragments (List.nodup_cons.1 nodup).2, if_neg (List.nodup_cons.1 nodup).1]
    exact if_pos complete
  rw [Calls, call_eq]
  exact loop.map (finish _)

end ControlMessage

def NeedMore (dataFlag copies : Bool) : List Fragment → List (List UInt8) → List Fragment → Prop
  | fragments, [], left => left = fragments
  | fragments, packet :: packets, left =>
    ∃ next, Calls dataFlag copies fragments packet (.error .needResource, next) ∧
      NeedMore dataFlag copies next packets left

namespace ControlMessage

variable {m : ControlMessage} {cut : Cut m.body} {collected : List ℕ} {j : ℕ} {dataFlag copies : Bool}

theorem needMore_packets (short : m.body.length < 65536) {before : List (List UInt8)}
    (sent : ∀ p ∈ before, ∃ i < cut.num, p = m.packet cut i) (lt : j < cut.num) (missing : m.packet cut j ∉ before)
    (nodup : collected.Nodup) (own : ∀ i ∈ collected, i < cut.num) (notYet : j ∉ collected) :
    ∃ left : List ℕ, NeedMore dataFlag copies (collected.map (m.fragment cut)) before (left.map (m.fragment cut)) ∧
    left.Nodup ∧
      ∀ i, i ∈ left ↔ i ∈ collected ∨ i < cut.num ∧ m.packet cut i ∈ before := by
  induction before generalizing collected with
  | nil => exact ⟨collected, rfl, nodup, by simp⟩
  | cons packet before ih =>
    obtain ⟨i, ltI, rfl⟩ := sent packet (by simp)
    have sent := fun p mem => sent p (List.mem_cons_of_mem _ mem)
    have others : m.packet cut j ∉ before := fun mem => missing (List.mem_cons_of_mem _ mem)
    have member (k : ℕ) : k < cut.num ∧ m.packet cut k ∈ m.packet cut i :: before ↔
        k = i ∨ k < cut.num ∧ m.packet cut k ∈ before := by
      rw [List.mem_cons]
      constructor
      · rintro ⟨ltK, same | mem⟩
        · exact .inl (packet_inj short ltK ltI same)
        · exact .inr ⟨ltK, mem⟩
      · rintro (rfl | ⟨ltK, mem⟩)
        · exact ⟨ltI, .inl rfl⟩
        · exact ⟨ltK, .inr mem⟩
    by_cases copy : i ∈ collected
    · obtain ⟨left, needs, nodupLeft, left_iff⟩ := ih sent others nodup own notYet
      refine ⟨left, ⟨_, calls_copy short nodup ltI copy, needs⟩, nodupLeft, fun k => ?_⟩
      rw [left_iff, member]
      constructor
      · exact Or.imp_right .inr
      · rintro (mem | rfl | mem)
        · exact .inl mem
        · exact .inl copy
        · exact .inr mem
    · have nodup : (i :: collected).Nodup := List.nodup_cons.2 ⟨copy, nodup⟩
      have own : ∀ k ∈ i :: collected, k < cut.num := List.forall_mem_cons.2 ⟨ltI, own⟩
      have notYet : j ∉ i :: collected := by
        rintro (- | ⟨-, mem⟩)
        · exact missing (by simp)
        · exact notYet mem
      obtain ⟨left, needs, nodupLeft, left_iff⟩ := ih sent others nodup own notYet
      refine ⟨left, ⟨_, calls_new short nodup own lt notYet, needs⟩, nodupLeft, fun k => ?_⟩
      rw [left_iff, member, List.mem_cons, or_assoc, or_left_comm]

theorem length_body_pos (m : ControlMessage) : 0 < m.body.length := by
  simp [body, assembleControlHeader]

theorem mem_assembleMessage {PMTU : ℤ} (fragmented : fragmentsNum PMTU m.body.length ≠ 1) (p : List UInt8) :
    p ∈ m.assembleMessage PMTU ↔ ∃ i < (cutOf PMTU m.body m.length_body_pos fragmented).num,
        p = m.packet (cutOf PMTU m.body m.length_body_pos fragmented) i := by
  have all := m.assembleFragments_eq (cutOf PMTU m.body m.length_body_pos fragmented) _ 0 (Nat.zero_add _)
  rw [Nat.zero_mul] at all
  have packets : m.assembleMessage PMTU = _ := (if_neg fragmented).trans all
  rw [packets, ← List.range_eq_range', List.mem_map]
  simp [List.mem_range, eq_comm]

end ControlMessage

/-- The fragments of a control message, in any order and with copies: the call for the last missing one returns the
message. -/
theorem fragments_roundTrip (dataFlag copies : Bool) (m : ControlMessage) (PMTU : ℤ) (short : m.body.length < 65536)
    (fragmented : fragmentsNum PMTU m.body.length ≠ 1) (before : List (List UInt8)) (packet : List UInt8)
    (sent : ∀ p ∈ before, p ∈ m.assembleMessage PMTU) (own : packet ∈ m.assembleMessage PMTU)
    (missing : packet ∉ before)
    (others : ∀ p ∈ m.assembleMessage PMTU, p = packet ∨ p ∈ before) :
    ∃ fragments, NeedMore dataFlag copies [] before fragments ∧
      Calls dataFlag copies fragments packet (.ok m.body, []) := by
  simp only [ControlMessage.mem_assembleMessage fragmented] at sent own others
  generalize cutOf PMTU m.body m.length_body_pos fragmented = cut at sent own others
  obtain ⟨j, lt, rfl⟩ := own
  obtain ⟨left, needs, nodup, left_iff⟩ :=
    ControlMessage.needMore_packets short sent lt missing List.nodup_nil nofun (List.not_mem_nil)
  simp only [List.not_mem_nil, false_or] at left_iff
  refine ⟨_, needs, ControlMessage.calls_last short (List.nodup_cons.2 ⟨?_, nodup⟩) fun k => ?_⟩
  · exact fun mem => missing ((left_iff j).1 mem).2
  · rw [List.mem_cons, left_iff]
    constructor
    · rintro (rfl | ⟨ltK, -⟩)
      · exact lt
      · exact ltK
    · intro ltK
      rcases others _ ⟨k, ltK, rfl⟩ with same | mem
      · exact .inl (ControlMessage.packet_inj short ltK lt same)
      · exact .inr ⟨ltK, mem⟩

def smallMessage : ControlMessage where
  radioMac := noRadioMac
  fragmentID := 7
  type := 0
  seqNum := 1
  msgTypeValue := 13
  msgElems := [[0, 31, 0, 2, 1, 1]]
  msgElemsBinding := [[4, 1, 0, 2, 1, 1]]
  isCrypted := 0

def smallPacket (i : ℕ) : List UInt8 := (smallMessage.assembleMessage 41).getD i []

/-- From the last fragment on, with a copy of it. -/
theorem fragments_roundTrip_small :
    ∃ fragments, NeedMore false true [] [smallPacket 2, smallPacket 2, smallPacket 1] fragments ∧
      Calls false true fragments (smallPacket 0) (.ok smallMessage.body, []) :=
  fragments_roundTrip false true smallMessage 41 (by decide +kernel) (by decide +kernel) _ _ (by decide +kernel)
    (by decide +kernel) (by decide +kernel) (by decide +kernel)

end OpenWifi.OpenCapwap
