import OpenWifi.FirewallUtil.Outcome

/-!
# The meaning of a rule definition

A packet is meant when it has the protocol of the definition, matches an entry of each list to match and no entry of a
list not to match.  The commands may treat it otherwise.
-/

namespace OpenWifi.FirewallUtil

open Option (isNone any elim_some bind_some not_isSome)
open List Chosen RuleDef Entry Wanted
open Scratch (Stage runStages passes total present inverted view write)

variable {r : Reading} {d : RuleDef} {isIngress : Bool} {wanted : Wanted} {packet : Packet} {c : BitVec 32}

/-- The protocol of the packet is the one of the definition, with `ported` when there is a list of ports. -/
def Wanted.covers (ported : Bool) (packet : Packet) : Wanted → Bool
  | .tcp => packet.protocol = .tcp
  | .udp => packet.protocol = .udp
  | .both => !ported || packet.protocol = .tcp || packet.protocol = .udp

structure Matches (r : Reading) (d : RuleDef) (isIngress : Bool) (wanted : Wanted) (packet : Packet)
    (c : BitVec 32) : Prop where
  protocol : wanted.covers (d.ends isIngress).portsGiven packet
  positive : ∀ s, ∀ entries ∈ d.positive isIngress s, ∃ e ∈ entries, e.holds r packet c
  negative : ∀ s, ∀ entries ∈ d.negative isIngress s, ∀ e ∈ entries, ¬e.holds r packet c

/-- A packet jumps to the target if it is meant, and otherwise it leaves with a zero top byte. -/
def Means (r : Reading) (d : RuleDef) (table chain : Text) (isIngress : Bool) (target : Text)
    (wanted : Wanted) (packet : Packet)
    (c : BitVec 32) : Prop :=
  ∃ rules, (computeRules d table chain isIngress target none).mapM (readCommand r table chain) = some rules ∧
    ((runChain packet c rules).1 = some (target.map Char.toUpper) ↔ Matches r d isIngress wanted packet c) ∧
    ((runChain packet c rules).1 ≠ some (target.map Char.toUpper) → (runChain packet c rules).2 &&& topByte = 0)

def allStages (r : Reading) (d : RuleDef) (isIngress : Bool) (wanted : Wanted) (packet : Packet) :
    List (Option (Stage 32)) :=
  listStages r d isIngress wanted packet ++ checkStage wanted packet (d.ends isIngress).portsGiven
    (d.singles isIngress r)

def jumps (r : Reading) (d : RuleDef) (isIngress : Bool) (wanted : Wanted) (packet : Packet) (c : BitVec 32) : Bool :=
  if (listStages r d isIngress wanted packet).all isNone then
    wanted.admits (wanted.checks (d.ends isIngress).portsGiven) packet && allHold packet c (d.singles isIngress r)
  else
    passes 24 (allStages r d isIngress wanted packet) (startMark (allStages r d isIngress wanted packet) c)

theorem length_listStages_le : (listStages r d isIngress wanted packet).length ≤ 7 := by
  rw [listStages, length_map, bits]
  split <;> split <;> decide

variable {table chain target : Text}

theorem Plain.outcome (plain : Plain r d isIngress wanted) (names : Common.IsNamed ⟨table, chain, wanted.text⟩)
    (terminal : Terminal (target.map Char.toUpper)) :
    Outcome r ⟨table, chain, wanted.text⟩ packet (target.map Char.toUpper)
      (computeRules d table chain isIngress target none)
      (jumps r d isIngress wanted packet) := by
  have include_eq : decide (wanted.text ≠ lit "both") = decide (wanted ≠ .both) := by cases wanted <;> decide
  have sound : Sound r ⟨table, chain, wanted.text⟩ packet _ _ _ _ := plain.sound_computeLists names rfl
  have commands : computeRules d table chain isIngress target none =
      if (computeLists d ⟨table, chain, wanted.text⟩ (decide (wanted ≠ .both)) isIngress).checks.multiRules = [] then
        plainRules (d.ends isIngress).portsGiven ⟨table, chain, wanted.text⟩
          (computeLists d ⟨table, chain, wanted.text⟩ (decide (wanted ≠ .both)) isIngress).checks.singleCheck
          (target.map Char.toUpper) []
      else markedRules d ⟨table, chain, wanted.text⟩
        (singleStage (d.ends isIngress).portsGiven ⟨table, chain, wanted.text⟩
        (computeLists d ⟨table, chain, wanted.text⟩ (decide (wanted ≠ .both)) isIngress))
          (target.map Char.toUpper) [] := by
    simp [computeRules, plain.normalProto_eq, plain.urlRuleCount_eq, ne_reject terminal, include_eq]
  rw [commands]
  split
  case isTrue empty =>
    have none : (listStages r d isIngress wanted packet).all isNone := by
      simpa using sound.multi_nil.1 empty
    unfold jumps
    simp only [none, if_true]
    exact sound.plainRules names rfl terminal
  case isFalse rules =>
    have some : ¬(listStages r d isIngress wanted packet).all isNone := fun none =>
      rules (sound.multi_nil.2 (by simpa using none))
    have short : (listStages r d isIngress wanted packet).length < 8 := Nat.lt_succ_of_le length_listStages_le
    have checked := sound.singleStage names rfl short
    unfold jumps
    simp only [some, if_false, Bool.false_eq_true]
    refine checked.markedRules names plain.urlRuleCount_eq (cons_append ..) ?_ terminal
    rw [length_append, checkStage]
    split
    · exact short.le
    · exact short

def Chosen.satisfied (r : Reading) (packet : Packet) (c : BitVec 32) (list : Chosen) : Bool :=
  list.entries.any (holds r packet c) != list.negated

def Field.slot : Field → Slot
  | .mark => .mark
  | .connmark => .connmark
  | .source | .sourceRange => .source
  | .destination | .destinationRange => .destination
  | .sourcePort => .sourcePort
  | .destinationPort => .destinationPort

variable {list : Chosen} {s : Slot}

theorem slot_of_mem (given : d.list isIngress s = some list) {e : Entry} (mem : e ∈ list.entries) : e.1.slot = s := by
  obtain ⟨entries, which, rfl⟩ := Option.map_eq_some_iff.1 given
  rcases Option.or_eq_some_iff.1 which with eq | ⟨_, eq⟩ <;> cases s <;>
    obtain ⟨texts, -, rfl⟩ := Option.map_eq_some_iff.1 eq <;> simp [AddressDef.entries] at mem <;> aesop

theorem Entry.holds_congr {e : Entry} (other : e.1.slot ≠ .connmark) (c c' : BitVec 32) :
    e.holds r packet c = e.holds r packet c' := by
  obtain ⟨f, text⟩ := e
  cases f <;> first | exact absurd rfl other | simp [holds, Field.read, Option.any_map, Test.holds]

theorem any_congr (given : d.list isIngress s = some list) (other : s ≠ .connmark) (c c' : BitVec 32) :
    list.entries.any (holds r packet c) = list.entries.any (holds r packet c') := by
  rw [Bool.eq_iff_iff, any_eq_true, any_eq_true]
  refine exists_congr fun e => and_congr_right fun mem => ?_
  rw [holds_congr (by rwa [slot_of_mem given mem]) c c']

def RuleDef.own (d : RuleDef) (isIngress : Bool) (s : Slot) : Bool := (d.list isIngress s).any Chosen.own

/-- The bits that are set when the marks of connections are tested. -/
def RuleDef.scratch (d : RuleDef) (isIngress : Bool) : ℕ :=
  total 24 ((d.bits isIngress).map (any fun s =>
    d.own isIngress s && (s = .mark || !d.own isIngress .connmark || (d.list isIngress s).any negated)))

def RuleDef.seen (d : RuleDef) (isIngress : Bool) (c : BitVec 32) : BitVec 32 :=
  write c (BitVec.ofNat 32 (d.scratch isIngress)) topByte

theorem isSome_slotStage (s : Slot) : (slotStage r d isIngress wanted packet s).isSome = d.own isIngress s := by
  rw [slotStage, RuleDef.own]
  cases d.list isIngress s with
  | none => rfl
  | some list => cases own : list.own <;> simp [Chosen.stage, own]

theorem any_slotStage (s : Slot) : (slotStage r d isIngress wanted packet s).any Stage.negated =
    (d.own isIngress s && (d.list isIngress s).any Chosen.negated) := by
  rw [slotStage, RuleDef.own]
  cases d.list isIngress s with
  | none => rfl
  | some list => cases own : list.own <;> simp [Chosen.stage, own]

theorem total_checkStage (bits : List Bool) {ported : Bool} {singles : List (Bool × Test)} :
    total 24 (bits ++ inverted (checkStage wanted packet ported singles)) = total 24 bits := by
  rw [checkStage]
  split
  · exact congrArg (total 24) (append_nil bits)
  · exact Scratch.total_append_false 24 bits

theorem bits_eq (d : RuleDef) (isIngress : Bool) :
    ∃ later, d.bits isIngress = none :: some .mark :: some .connmark :: later ∧
    some .mark ∉ later ∧ some .connmark ∉ later := by
  refine ⟨_, rfl, ?_⟩
  split <;> split <;> decide

theorem view_connmark (own : d.own isIngress .connmark) :
    view 24 topByte c (allStages r d isIngress wanted packet) 2 = d.seen isIngress c := by
  obtain ⟨later, bits, noMark, -⟩ := bits_eq d isIngress
  have front : (allStages r d isIngress wanted packet).take 2 = [none,
    slotStage r d isIngress wanted packet .mark] := by
    rw [allStages, listStages, bits]
    rfl
  have back : (allStages r d isIngress wanted packet).drop 2 =
      (slotStage r d isIngress wanted packet .connmark :: later.map
        (Option.bind · (slotStage r d isIngress wanted packet))) ++
        checkStage wanted packet (d.ends isIngress).portsGiven (d.singles isIngress r) := by
    rw [allStages, listStages, bits]
    rfl
  have flags : present [none, slotStage r d isIngress wanted packet .mark] ++
      inverted (slotStage r d isIngress wanted packet .connmark :: later.map
        (Option.bind · (slotStage r d isIngress wanted packet))) =
        (d.bits isIngress).map (any fun s =>
          d.own isIngress s && (s = .mark || !d.own isIngress .connmark || (d.list isIngress s).any negated)) := by
    have later_eq : ∀ b ∈ later, (b.bind (slotStage r d isIngress wanted packet)).any Stage.negated = b.any fun s =>
        d.own isIngress s && (s = .mark || !d.own isIngress .connmark || (d.list isIngress s).any negated) := by
      intro b mem
      cases b with
      | none => rfl
      | some s =>
        have ne : s ≠ .mark := fun eq => noMark (eq ▸ mem)
        simp [any_slotStage, own, ne]
    rw [bits]
    simp only [present, inverted, map_cons, map_nil, map_map, cons_append, nil_append,
      isSome_slotStage, any_slotStage, own]
    simpa [isSome_slotStage, own] using later_eq
  rw [view, front, back, inverted, map_append, ← append_assoc]
  exact congrArg (fun n => write c (BitVec.ofNat 32 n) topByte)
    ((total_checkStage _).trans (congrArg (total 24) flags))

theorem view_check (other : d.own isIngress .connmark = false) :
    view 24 topByte c (allStages r d isIngress wanted packet) (listStages r d isIngress wanted packet).length =
      d.seen isIngress c := by
  rw [view, seen, scratch, allStages, take_left, drop_left, total_checkStage, listStages, present,
    map_map]
  congr 2
  congr 1
  refine map_congr_left fun b _ => ?_
  cases b with
  | none => rfl
  | some s => simp [isSome_slotStage, other]

theorem mem_bits (given : d.list isIngress s = some list) : some s ∈ d.bits isIngress := by
  cases s <;> simp [bits, given]

theorem getElem?_listStages {i : ℕ} {stage : Stage 32} :
    (listStages r d isIngress wanted packet)[i]? = some (some stage) ↔
    ∃ s, (d.bits isIngress)[i]? = some (some s) ∧ slotStage r d isIngress wanted packet s = some stage := by
  rw [listStages, getElem?_map]
  rcases (d.bits isIngress)[i]? with _ | _ | s <;> simp

section

variable (plain : Plain r d isIngress wanted)
include plain

theorem tests_single (given : d.list isIngress s = some list) (single : list.own = false) :
    ∃ e test, list.entries = [e] ∧ e.1.read r e.2 = some test ∧ list.tests r = [(list.negated, test)] := by
  have one : list.entries.length = 1 := by
    obtain ⟨entries, which, rfl⟩ := Option.map_eq_some_iff.1 given
    simpa using (Bool.or_eq_false_iff.1 single).2
  obtain ⟨e, entry⟩ := length_eq_one_iff.1 one
  obtain ⟨test, read⟩ := Option.isSome_iff_exists.1 (plain.readable_of_list given e (by simp [entry])).read
  exact ⟨e, test, entry, read, by simp [tests, single, entry, read]⟩

theorem allHold_tests (given : d.list isIngress s = some list) (single : list.own = false)
    (c : BitVec 32) : allHold packet c (list.tests r) = list.satisfied r packet c := by
  obtain ⟨e, test, entry, read, tests⟩ := tests_single plain given single
  simp [tests, entry, read, allHold, satisfied, holds]

theorem allHold_singles (c : BitVec 32) : allHold packet c (d.singles isIngress r) ↔
      ∀ s list, d.list isIngress s = some list → list.own = false → list.satisfied r packet c := by
  have each : allHold packet c (d.singles isIngress r) ↔
      ∀ s ∈ slots, allHold packet c ((d.list isIngress s).elim [] (tests r)) := by
    rw [allHold, singles, all_flatMap, all_eq_true]
    simp only [mem_reverse]
    rfl
  rw [each]
  constructor
  · intro h s list given single
    have own := h s (mem_slots s)
    rw [given] at own
    rwa [← allHold_tests plain given single]
  · intro h s _
    cases given : d.list isIngress s with
    | none => rfl
    | some list =>
      cases single : list.own with
      | true => simp [tests, single, allHold]
      | false =>
        rw [elim_some, allHold_tests plain given single]
        exact h s list given single

theorem singles_eq_nil : d.singles isIngress r = [] ↔ ∀ s list, d.list isIngress s = some list → list.own := by
  rw [singles, flatMap_eq_nil_iff]
  constructor
  · intro h s list given
    by_contra single
    obtain ⟨e, test, -, -, tests⟩ := tests_single plain given (Bool.not_eq_true _ ▸ single)
    have own := h s (mem_reverse.2 (mem_slots s))
    rw [given, elim_some, tests] at own
    exact absurd own (cons_ne_nil _ _)
  · intro h s _
    cases given : d.list isIngress s with
    | none => rfl
    | some list => simp [tests, h s list given]

end

theorem satisfied_congr (given : d.list isIngress s = some list) (other : s ≠ .connmark)
    (c c' : BitVec 32) : list.satisfied r packet c = list.satisfied r packet c' := by
  rw [satisfied, any_congr given other c c', satisfied]

theorem own_of_list (given : d.list isIngress s = some list) : d.own isIngress s = list.own := by
  rw [RuleDef.own, given, Option.any_some]

theorem any_view {i : ℕ} (given : d.list isIngress s = some list) (own : list.own)
    (bit : (d.bits isIngress)[i]? = some (some s)) :
    list.entries.any (holds r packet (view 24 topByte c (allStages r d isIngress wanted packet) i)) =
      list.entries.any (holds r packet (d.seen isIngress c)) := by
  by_cases connmark : s = .connmark
  · subst connmark
    obtain ⟨later, bits, -, once⟩ := bits_eq d isIngress
    have index : i = 2 := by
      rw [bits] at bit
      match i with
      | 0 | 1 => simp at bit
      | 2 => rfl
      | i + 3 => exact absurd (mem_of_getElem? (i := i) bit) once
    rw [index, view_connmark (own_of_list given ▸ own)]
  · exact any_congr given connmark _ _

theorem allHold_view (plain : Plain r d isIngress wanted) :
    allHold packet (view 24 topByte c (allStages r d isIngress wanted packet)
      (listStages r d isIngress wanted packet).length)
      (d.singles isIngress r) = allHold packet (d.seen isIngress c) (d.singles isIngress r) := by
  by_cases own : d.own isIngress .connmark
  · rw [Bool.eq_iff_iff, allHold_singles plain, allHold_singles plain]
    refine forall₂_congr fun s list => forall₂_congr fun given single => ?_
    have other : s ≠ .connmark := by
      rintro rfl
      rw [own_of_list given, single] at own
      exact absurd own nofun
    rw [satisfied_congr given other]
  · rw [view_check (Bool.not_eq_true _ ▸ own)]

theorem length_allStages_le : (allStages r d isIngress wanted packet).length ≤ 8 := by
  have lists : (listStages r d isIngress wanted packet).length ≤ 7 := length_listStages_le
  rw [allStages, length_append, checkStage]
  split
  · exact lists.trans (by decide)
  · exact Nat.succ_le_succ lists

theorem all_isNone_iff : (listStages r d isIngress wanted packet).all isNone ↔ ∀ s, d.own isIngress s = false := by
  rw [all_eq_true]
  constructor
  · intro h s
    cases given : d.list isIngress s with
    | none => rw [RuleDef.own, given, Option.any_none]
    | some list =>
      have empty := h _ (mem_map_of_mem (mem_bits given))
      rw [bind_some, ← not_isSome, isSome_slotStage, Bool.not_eq_true'] at empty
      exact empty
  · intro h stage mem
    obtain ⟨b, -, rfl⟩ := mem_map.1 mem
    cases b with
    | none => rfl
    | some s => rw [bind_some, ← not_isSome, isSome_slotStage, h, Bool.not_false]

theorem slotStage_eq (given : d.list isIngress s = some list) (own : list.own) :
    slotStage r d isIngress wanted packet s = some ⟨list.negated, fun c =>
      wanted.admits (wanted.requires s) packet && list.entries.any (holds r packet c)⟩ := by
  rw [slotStage, given, bind_some, stage, if_pos own]

theorem exists_of_slotStage {stage : Stage 32} (eq : slotStage r d isIngress wanted packet s = some stage) :
    ∃ list, d.list isIngress s = some list ∧ list.own ∧ stage = ⟨list.negated, fun c =>
      wanted.admits (wanted.requires s) packet && list.entries.any (holds r packet c)⟩ := by
  obtain ⟨list, given, own⟩ := Option.bind_eq_some_iff.1 eq
  have rules : list.own := by
    by_contra single
    rw [Chosen.stage, if_neg single] at own
    cases own
  exact ⟨list, given, rules, Option.some.inj (eq.symm.trans (slotStage_eq given rules))⟩

theorem forall_getElem?_append {α : Type} {a b : List (Option α)} {p : ℕ → α → Prop} :
    (∀ i x, (a ++ b)[i]? = some (some x) → p i x) ↔
      (∀ i x, a[i]? = some (some x) → p i x) ∧ ∀ i x, b[i]? = some (some x) → p (a.length + i) x := by
  refine ⟨fun h => ⟨fun i x at_i => h i x ?_, fun i x at_i => h _ x ?_⟩, fun h i x at_i => ?_⟩
  · rwa [List.getElem?_append_left (List.getElem?_eq_some_iff.1 at_i).1]
  · rwa [getElem?_append_right (Nat.le_add_right ..), Nat.add_sub_cancel_left]
  · by_cases inside : i < a.length
    · rw [getElem?_append_left inside] at at_i
      exact h.1 i x at_i
    · obtain ⟨j, rfl⟩ := Nat.exists_eq_add_of_le (not_lt.1 inside)
      rw [getElem?_append_right (Nat.le_add_right ..), Nat.add_sub_cancel_left] at at_i
      exact h.2 j x at_i

theorem jumps_iff (plain : Plain r d isIngress wanted) (clear : c &&& topByte = 0) :
    jumps r d isIngress wanted packet c ↔ (∀ s list, d.list isIngress s = some list → list.own →
        (wanted.admits (wanted.requires s) packet && list.entries.any
          (holds r packet (d.seen isIngress c))) = !list.negated) ∧
      ((∀ s, d.own isIngress s = false) ∨ d.singles isIngress r ≠ [] →
        wanted.admits (wanted.checks (d.ends isIngress).portsGiven) packet ∧
          allHold packet (d.seen isIngress c) (d.singles isIngress r)) := by
  rw [jumps]
  split
  case isTrue none =>
    have none := all_isNone_iff.1 none
    have same : d.seen isIngress c = c := by
      have zero : d.scratch isIngress = 0 := Scratch.total_eq_zero (by simp [none]) 24
      rw [seen, zero]
      exact write_zero clear
    rw [same, Bool.and_eq_true]
    refine ⟨fun h => ⟨fun s list given own => ?_, fun _ => h⟩, fun h => h.2 (.inl none)⟩
    rw [← own_of_list given, none s] at own
    cases own
  case isFalse rules =>
    have rules : ¬∀ s, d.own isIngress s = false := mt all_isNone_iff.2 rules
    have short : (allStages r d isIngress wanted packet).length ≤ 8 := length_allStages_le
    have start : ∀ j, (startMark (allStages r d isIngress wanted packet) c).getLsbD j =
        if 24 ≤ j then (inverted (allStages r d isIngress wanted packet))[j - 24]?.getD false else c.getLsbD j :=
      Scratch.getLsbD_write_total getLsbD_topByte (by simpa [inverted] using by omega) c
    rw [Scratch.passes_iff_view getLsbD_topByte (by omega) (c := c) (fun j low => by rw [start, if_neg (by omega)])
      (fun i => by rw [start, if_pos (by omega), Nat.add_sub_cancel_left])]
    conv_lhs => intro i stage; lhs; rw [allStages]
    rw [forall_getElem?_append]
    refine and_congr ⟨fun h s list given own => ?_, fun h i stage at_i => ?_⟩ ?_
    · obtain ⟨i, bit⟩ := mem_iff_getElem?.1 (mem_bits given)
      have fired := h i _ (getElem?_listStages.2 ⟨s, bit, slotStage_eq given own⟩)
      dsimp only at fired
      rwa [any_view given own bit] at fired
    · obtain ⟨s, bit, stage_eq⟩ := getElem?_listStages.1 at_i
      obtain ⟨list, given, own, rfl⟩ := exists_of_slotStage stage_eq
      dsimp only
      rw [any_view given own bit]
      exact h s list given own
    · rw [or_iff_right rules, checkStage]
      split
      case isTrue empty => simp [empty]
      case isFalse check =>
        rw [← allHold_view plain, ← Bool.and_eq_true]
        refine ⟨fun h _ => h 0 _ rfl, fun h i stage at_i => ?_⟩
        cases i with
        | zero =>
          cases at_i
          exact h check
        | succ i => exact absurd at_i (by simp)

namespace RuleDef

variable (d isIngress)

def meets (r : Reading) (packet : Packet) (c : BitVec 32) (s : Slot) : Bool :=
  (d.list isIngress s).all (satisfied r packet c)

def ignored (s : Slot) : List Entry := if (d.positive isIngress s).isSome then (d.negative isIngress s).getD [] else []

/-- The rules look at the protocol: in the single check, or in the rules of a list to match. -/
def Checked (wanted : Wanted) : Prop :=
  (∀ s, d.own isIngress s = false) ∨ (∃ s list, d.list isIngress s = some list ∧ list.own = false) ∨
    ∃ s list, d.list isIngress s = some list ∧ list.own ∧ list.negated = false ∧ wanted.requires s

end RuleDef

theorem meets_iff : d.meets isIngress r packet c s ↔ ∀ list, d.list isIngress s = some list →
    list.satisfied r packet c :=
  Option.all_eq_true _ _

theorem meets_congr (other : s ≠ .connmark) (c c' : BitVec 32) :
    d.meets isIngress r packet c s = d.meets isIngress r packet c' s := by
  rw [Bool.eq_iff_iff, meets_iff, meets_iff]
  exact forall₂_congr fun list given => by rw [satisfied_congr given other]

theorem satisfied_iff : list.satisfied r packet c ↔ list.entries.any (holds r packet c) = !list.negated := by
  rw [satisfied]
  cases list.entries.any (holds r packet c) <;> cases list.negated <;> decide

theorem matches_iff : Matches r d isIngress wanted packet c ↔ wanted.covers (d.ends isIngress).portsGiven packet ∧
    ∀ s, d.meets isIngress r packet c s ∧ ∀ e ∈ d.ignored isIngress s, ¬e.holds r packet c := by
  have each : ∀ s, ((∀ entries ∈ d.positive isIngress s, ∃ e ∈ entries, e.holds r packet c) ∧
      ∀ entries ∈ d.negative isIngress s, ∀ e ∈ entries, ¬e.holds r packet c) ↔
        d.meets isIngress r packet c s ∧ ∀ e ∈ d.ignored isIngress s, ¬e.holds r packet c := by
    intro s
    rw [meets, ignored, list, choose]
    cases d.positive isIngress s <;> cases d.negative isIngress s <;> simp [satisfied]
  constructor
  · exact fun h => ⟨h.protocol, fun s => (each s).1 ⟨h.positive s, h.negative s⟩⟩
  · exact fun h => ⟨h.1, fun s => ((each s).2 (h.2 s)).1, fun s => ((each s).2 (h.2 s)).2⟩

theorem admits_checks (ported : Bool) : wanted.admits (wanted.checks ported) packet = wanted.covers ported packet := by
  cases wanted <;> cases ported <;> simp [admits, checks, covers, guards]

theorem portsGiven_of_list (given : d.list isIngress s = some list) (port : s.isPort) :
    (d.ends isIngress).portsGiven := by
  obtain ⟨entries, which, -⟩ := Option.map_eq_some_iff.1 given
  cases s with
  | sourcePort | destinationPort =>
    rw [positive, negative, entriesFor, entriesFor, ← Option.map_or] at which
    obtain ⟨texts, eq, -⟩ := Option.map_eq_some_iff.1 which
    simp [Ends.portsGiven, eq]
  | _ => exact absurd port (by decide)

theorem admits_of_covers {ported : Bool} (covers : wanted.covers ported packet) (ports : s.isPort → ported) :
    wanted.admits (wanted.requires s) packet := by
  cases wanted <;> cases port : s.isPort <;> cases ported <;>
    simp_all [Wanted.admits, Wanted.requires, Wanted.covers, Wanted.guards]

theorem admits_of_not_covers {ported : Bool} (other : ¬wanted.covers ported packet) :
    wanted.admits (wanted.requires s) packet = !wanted.requires s := by
  cases wanted <;> cases port : s.isPort <;> cases ported <;>
    simp_all [admits, requires, covers, guards]

theorem jumps_of_covers (plain : Plain r d isIngress wanted) (clear : c &&& topByte = 0)
    (covers : wanted.covers (d.ends isIngress).portsGiven packet) :
    jumps r d isIngress wanted packet c ↔ ∀ s, d.meets isIngress r packet (d.seen isIngress c) s := by
  have fires : ∀ s list, d.list isIngress s = some list →
      ((wanted.admits (wanted.requires s) packet && list.entries.any
        (holds r packet (d.seen isIngress c))) = !list.negated ↔
        list.satisfied r packet (d.seen isIngress c)) := fun s list given => by
    rw [admits_of_covers covers (portsGiven_of_list given), Bool.true_and, satisfied_iff]
  rw [jumps_iff plain clear, admits_checks, allHold_singles plain]
  simp only [meets_iff]
  constructor
  · rintro ⟨lists, check⟩ s list given
    by_cases own : list.own
    · exact (fires s list given).1 (lists s list given own)
    · have single : list.own = false := Bool.not_eq_true _ ▸ own
      exact (check (.inr (mt (singles_eq_nil plain).1 fun all => own (all s list given)))).2 s list given single
  · intro h
    exact ⟨fun s list given _ => (fires s list given).2 (h s list given), fun _ =>
      ⟨covers, fun s list given _ => h s list given⟩⟩

theorem jumps_of_not_covers (plain : Plain r d isIngress wanted) (clear : c &&& topByte = 0)
    (other : ¬wanted.covers (d.ends isIngress).portsGiven packet) :
    jumps r d isIngress wanted packet c ↔ ¬d.Checked isIngress wanted ∧
      ∀ s, wanted.requires s = false → d.meets isIngress r packet (d.seen isIngress c) s := by
  rw [jumps_iff plain clear, admits_checks]
  simp only [admits_of_not_covers other, meets_iff, other, Bool.false_eq_true, false_and, imp_false,
    not_or, ne_eq, not_not,
    singles_eq_nil plain, RuleDef.Checked]
  constructor
  · rintro ⟨lists, rules, own⟩
    refine ⟨⟨rules, ?_, ?_⟩, fun s carried list given => ?_⟩
    · rintro ⟨s, list, given, single⟩
      exact absurd (own s list given) (by simp [single])
    · rintro ⟨s, list, given, -, positive, carried⟩
      exact absurd (lists s list given (own s list given)) (by simp [positive, carried])
    · have fired := lists s list given (own s list given)
      rw [carried, Bool.not_false, Bool.true_and] at fired
      exact satisfied_iff.2 fired
  · rintro ⟨⟨rules, own, positive⟩, met⟩
    refine ⟨fun s list given has => ?_, rules, fun s list given => ?_⟩
    · cases carried : wanted.requires s with
      | false =>
        rw [Bool.not_false, Bool.true_and]
        exact satisfied_iff.1 (met s carried list given)
      | true =>
        have negated : list.negated := by
          by_contra not
          exact positive ⟨s, list, given, has, Bool.not_eq_true _ ▸ not, carried⟩
        rw [negated]
        rfl
    · by_contra single
      exact own ⟨s, list, given, Bool.not_eq_true _ ▸ single⟩

/-- A packet that meets the other lists is treated as it is meant exactly if the marks of connections agree with the
scratch bits and no list is left out. -/
theorem means_iff (plain : Plain r d isIngress wanted) (isTable : IsWord table)
    (isChain : IsWord chain) (terminal : target.map Char.toUpper = lit "ACCEPT" ∨ target.map Char.toUpper = lit "DROP")
    (clear : c &&& 0xFF000000#32 = 0) : Means r d table chain isIngress target wanted packet c ↔
      (wanted.covers (d.ends isIngress).portsGiven packet → (∀ s, s ≠ .connmark → d.meets isIngress r packet c s) →
        (d.meets isIngress r packet (d.seen isIngress c) .connmark ↔ d.meets isIngress r packet c .connmark ∧
          ∀ s, ∀ e ∈ d.ignored isIngress s, ¬e.holds r packet c)) ∧
      (¬wanted.covers (d.ends isIngress).portsGiven packet → d.Checked isIngress wanted ∨
        ∃ s, wanted.requires s = false ∧ ¬d.meets isIngress r packet (d.seen isIngress c) s) := by
  have decided : Means r d table chain isIngress target wanted packet c ↔
      (jumps r d isIngress wanted packet c ↔ Matches r d isIngress wanted packet c) := by
    have outcome : Outcome r ⟨table, chain, wanted.text⟩ packet _ _ _ := plain.outcome ⟨isTable, isChain⟩ terminal
    obtain ⟨rules, read, run⟩ := outcome
    obtain ⟨target_eq, zero⟩ := run c clear
    have jump : (runChain packet c rules).1 = some (target.map Char.toUpper) ↔ jumps r d isIngress wanted packet c := by
      rw [target_eq]
      cases jumps r d isIngress wanted packet c <;> simp
    rw [Means]
    constructor
    · rintro ⟨rules', read', meant, -⟩
      obtain rfl := Option.some.inj (read.symm.trans read')
      rwa [jump] at meant
    · intro meant
      refine ⟨rules, read, by rwa [jump], fun stays => zero ?_⟩
      exact Bool.not_eq_true _ ▸ mt jump.2 stays
  rw [decided, matches_iff]
  by_cases covers : wanted.covers (d.ends isIngress).portsGiven packet
  · have split : ∀ c', (∀ s, d.meets isIngress r packet c' s) ↔
        (∀ s, s ≠ .connmark → d.meets isIngress r packet c s) ∧ d.meets isIngress r packet c' .connmark := by
      intro c'
      refine ⟨fun h => ⟨fun s other => meets_congr other c' c ▸ h s, h .connmark⟩, fun h s => ?_⟩
      by_cases connmark : s = .connmark
      · exact connmark ▸ h.2
      · exact meets_congr connmark c c' ▸ h.1 s connmark
    rw [jumps_of_covers plain clear covers, forall_and, split, split, and_assoc]
    simp only [covers, true_and, not_true_eq_false, false_implies, and_true, true_implies]
    exact and_congr_right_iff
  · rw [jumps_of_not_covers plain clear covers]
    simp only [covers, false_and, iff_false, not_and_or, not_not, not_forall, Bool.false_eq_true,
      false_implies, true_and,
      not_false_eq_true, true_implies, exists_prop]

def noOptions : RuleDef :=
  ⟨none, none, none, none, none, none, none, none, fun _ => none, fun _ => none, none, none, none,
    none, none, none, none, none,
    none, none, none, none⟩

def decimalPorts : Reading :=
  ⟨fun _ => none, fun _ => none, fun text => (constant text).map fun n port => port.toNat = n⟩

/-- A mark of connections whose mask leaves out the top byte, and two ports. -/
theorem means_iff_masked : Means decimalPorts { noOptions with
        proto := some (lit "TCP"), connmark := some [lit "0x10/0x00FFFFFF"], localPort := some [lit "80", lit "443"] }
      (lit "filter") (lit "ingress") true (lit "accept") .tcp ⟨.tcp, 0, 0, 0, 40000, 80⟩ 0x10 :=
  (means_iff ⟨rfl, rfl, rfl, rfl, rfl, rfl, rfl,
    by decide, by decide +kernel, by decide, by decide, by decide +kernel⟩ (by decide) (by decide)
    (.inl (by decide)) (by decide)).2 ⟨fun _ _ => by decide +kernel, fun other => absurd (by decide) other⟩

theorem not_means_of_run {jumped : Bool}
    (run : ((computeRules d table chain isIngress target none).mapM (readCommand r table chain)).map
      (fun rules => decide ((runChain packet c rules).1 = some (target.map Char.toUpper))) = some jumped)
    (differs : ¬(jumped ↔ wanted.covers (d.ends isIngress).portsGiven packet ∧
      ∀ s, d.meets isIngress r packet c s ∧ ∀ e ∈ d.ignored isIngress s, ¬e.holds r packet c)) :
    ¬Means r d table chain isIngress target wanted packet c := by
  rintro ⟨rules, read, meant, -⟩
  rw [read, Option.map_some, Option.some.injEq] at run
  rw [matches_iff] at meant
  exact differs (by rw [← run, decide_eq_true_iff, meant])

/-- Without the mask the same packet does not jump; with two marks not to match a packet of another protocol jumps. -/
theorem not_means : ¬Means decimalPorts { noOptions with
        proto := some (lit "tcp"), connmark := some [lit "0x10"], localPort := some [lit "80", lit "443"] }
      (lit "filter") (lit "ingress") true (lit "ACCEPT") .tcp ⟨.tcp, 0, 0, 0, 40000, 80⟩ 0x10 ∧
    ¬Means decimalPorts { noOptions with proto := some (lit "tcp"), notMark := some [lit "0x1", lit "0x2"] }
      (lit "filter") (lit "ingress") true (lit "ACCEPT") .tcp ⟨.udp, 0, 0, 0, 40000, 80⟩ 0 :=
  ⟨not_means_of_run (show _ = some false by decide +kernel) (by decide +kernel),
    not_means_of_run (show _ = some true by decide +kernel) (by decide +kernel)⟩

end OpenWifi.FirewallUtil
