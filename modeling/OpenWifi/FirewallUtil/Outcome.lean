import OpenWifi.FirewallUtil.Stages

/-!
# What the rules of a definition do

The progress of all lists is followed to its end: the single check is one stage more, and the last rules compare the top
byte with all bits and clear it.
-/

namespace OpenWifi.FirewallUtil

open BitVec (getLsbD_and getLsbD_zero getLsbD_or getLsbD_not ofNat)
open List
open Scratch (Stage runStages passes total present inverted view write)

/-! ## The lists of a definition -/

inductive Slot where
  | mark
  | connmark
  | source
  | destination
  | sourcePort
  | destinationPort
  deriving DecidableEq

def slots : List Slot := [.mark, .connmark, .source, .destination, .sourcePort, .destinationPort]

theorem mem_slots (s : Slot) : s ∈ slots := by cases s <;> decide

instance (p : Slot → Prop) [DecidablePred p] : Decidable (∀ s, p s) :=
  decidable_of_iff (∀ s ∈ slots, p s) ⟨fun h s => h s (mem_slots s), fun h s _ => h s⟩

def Slot.isPort : Slot → Bool
  | .sourcePort | .destinationPort => true
  | _ => false

namespace RuleDef

variable (d : RuleDef) (isIngress : Bool)

def positive : Slot → Option (List Entry)
  | .mark => entriesFor .mark d.mark
  | .connmark => entriesFor .connmark d.connmark
  | .source => (d.ends isIngress).src.map (AddressDef.entries .source .sourceRange)
  | .destination => (d.ends isIngress).dst.map (AddressDef.entries .destination .destinationRange)
  | .sourcePort => entriesFor .sourcePort (d.ends isIngress).sport
  | .destinationPort => entriesFor .destinationPort (d.ends isIngress).dport

def negative : Slot → Option (List Entry)
  | .mark => entriesFor .mark d.notMark
  | .connmark => entriesFor .connmark d.notConnmark
  | .source => (d.ends isIngress).notSrc.map (AddressDef.entries .source .sourceRange)
  | .destination => (d.ends isIngress).notDst.map (AddressDef.entries .destination .destinationRange)
  | .sourcePort => entriesFor .sourcePort (d.ends isIngress).notSport
  | .destinationPort => entriesFor .destinationPort (d.ends isIngress).notDport

def list (s : Slot) : Option Chosen := choose (d.positive isIngress s) (d.negative isIngress s) (s ≠ .mark)

def bits : List (Option Slot) :=
  [none, some .mark, some .connmark] ++ (if (d.list isIngress .source).isSome then [some .source] else []) ++
    (if (d.list isIngress .destination).isSome then [some .destination] else []) ++
    [some .sourcePort, some .destinationPort]

def singles (r : Reading) : List (Bool × Test) :=
  slots.reverse.flatMap fun s => (d.list isIngress s).elim [] (Chosen.tests r)

end RuleDef

structure Plain (r : Reading) (d : RuleDef) (isIngress : Bool) (wanted : Wanted) : Prop where
  hours : d.activeHours = none
  weekdays : d.activeWeekdays = none
  weeklyRanges : d.activeWeeklyRanges = none
  layer7 : d.layer7 = none
  ipp2p : d.ipp2p = none
  minPktSize : d.minPktSize = none
  maxPktSize : d.maxPktSize = none
  urls : ∀ v ∈ urlVars, d.url v = none ∧ d.notUrl v = none
  proto : (d.proto.getD (lit "both")).map Char.toLower = wanted.text
  macs : ∀ a ∈ [d.localAddr, d.notLocalAddr, d.remoteAddr, d.notRemoteAddr].filterMap id, a.macs = []
  some_entry : ∀ s, ∀ entries ∈ (d.positive isIngress s).toList ++ (d.negative isIngress s).toList, entries ≠ []
  readable : ∀ s, ∀ entries ∈ (d.positive isIngress s).toList ++ (d.negative isIngress s).toList,
    ∀ e ∈ entries, Readable r e

def Wanted.requires (wanted : Wanted) (s : Slot) : Bool := s.isPort || wanted ≠ .both

section

variable {r : Reading} {d : RuleDef} {isIngress : Bool} {wanted : Wanted} {packet : Packet}

def slotStage (r : Reading) (d : RuleDef) (isIngress : Bool) (wanted : Wanted) (packet : Packet) (s : Slot) :
    Option (Stage 32) :=
  (d.list isIngress s).bind (Chosen.stage r packet (wanted.admits (wanted.requires s) packet))

def listStages (r : Reading) (d : RuleDef) (isIngress : Bool) (wanted : Wanted) (packet : Packet) :
    List (Option (Stage 32)) :=
  (d.bits isIngress).map (Option.bind · (slotStage r d isIngress wanted packet))

theorem mem_lists {s : Slot} {entries : List Entry}
    (which : (d.positive isIngress s).or (d.negative isIngress s) = some entries) :
    entries ∈ (d.positive isIngress s).toList ++ (d.negative isIngress s).toList := by
  rcases Option.or_eq_some_iff.1 which with eq | ⟨_, eq⟩ <;> simp [eq]

namespace Plain

variable (plain : Plain r d isIngress wanted)
include plain

theorem normalProto_eq : normalProto d.proto = wanted.text := by
  rw [normalProto, plain.proto]
  cases wanted <;> decide

theorem initialCheck_eq : initialCheck d = [] := by
  simp [initialCheck, plain.hours, plain.weekdays, plain.weeklyRanges, plain.layer7, plain.ipp2p, plain.minPktSize]

theorem urlLists_eq (v : UrlVar) : urlLists d v = none := by
  rw [urlLists]
  split
  · exact (plain.urls v (by cases v <;> decide)).2
  · exact (plain.urls v (by cases v <;> decide)).1

theorem urlRuleCount_eq : urlRuleCount d = 0 := by
  simp [urlRuleCount, urlCount, urlVars, plain.urlLists_eq]

theorem urlStage_eq (k : Common) (includeProto : Bool) (p : Progress) :
    urlStage d k includeProto p = ⟨p.checks, p.masks ++ [(urlIsNegated d, false)]⟩ := by
  simp [urlStage, plain.urlRuleCount_eq, plain.urlLists_eq, urlVars]

theorem readable_of_list {s : Slot} {list : Chosen} (given : d.list isIngress s = some list) :
    ∀ e ∈ list.entries, Readable r e := by
  obtain ⟨entries, which, rfl⟩ := Option.map_eq_some_iff.1 given
  exact plain.readable s entries (mem_lists which)

theorem macs_of_end {a : AddressDef} (given : (d.ends isIngress).src.or (d.ends isIngress).notSrc = some a ∨
    (d.ends isIngress).dst.or (d.ends isIngress).notDst = some a) : a.macs = [] := by
  refine plain.macs a ?_
  rcases given with given | given <;> rcases Option.or_eq_some_iff.1 given with eq | ⟨_, eq⟩ <;> cases isIngress <;>
    simp_all [RuleDef.ends]

theorem sound_computeLists {k : Common} (names : k.IsNamed) (proto : k.proto = wanted.text) :
    Sound r k packet (d.ends isIngress).portsGiven (computeLists d k (decide (wanted ≠ .both)) isIngress)
      (listStages r d isIngress wanted packet) (d.singles isIngress r) := by
  have some_entry : ∀ s, ∀ entries ∈ (d.positive isIngress s).or (d.negative isIngress s), entries ≠ [] :=
    fun s entries mem => plain.some_entry s entries (mem_lists mem)
  have readable : ∀ s, ∀ entries ∈ (d.positive isIngress s).or (d.negative isIngress s), ∀ e ∈ entries, Readable r e :=
    fun s entries mem => plain.readable s entries (mem_lists mem)
  have start : Sound r k packet (d.ends isIngress).portsGiven
    (urlStage d k (decide (wanted ≠ .both)) ⟨⟨[], initialCheck d⟩, []⟩)
      [none] [] := by
    have empty : Sound r k packet (d.ends isIngress).portsGiven ⟨⟨[], []⟩, []⟩ [] [] :=
      ⟨⟨[], rfl, fun _ => rfl⟩, fun protocol _ => Adds.nil protocol, .nil, by simp, by simp⟩
    rw [plain.urlStage_eq, plain.initialCheck_eq]
    exact empty.skip _
  have marks := start.listStage names proto .mark false (decide (wanted ≠ .both)) (some_entry .mark)
    (readable .mark) nofun
    (Nat.lt_of_sub_eq_succ rfl)
  have connmarks := marks.listStage names proto .connmark true (decide (wanted ≠ .both)) (some_entry .connmark)
    (readable .connmark) nofun (Nat.lt_of_sub_eq_succ rfl)
  have sources := connmarks.addressStage names proto (t := sourceTests) ⟨rfl, rfl⟩ (decide (wanted ≠ .both))
    (fun a given => plain.macs_of_end (.inl given)) (some_entry .source) (readable .source) ⟨rfl, rfl⟩
    (Nat.lt_of_sub_eq_succ rfl)
  have longer : ∀ {n : ℕ} {a : List (Option (Stage 32))} {list : Option Chosen} {stage : Chosen → Option (Stage 32)},
      a.length < n → (a ++ list.elim [] fun l => [stage l]).length < n + 1 := by
    intro n a list stage short
    cases list <;> simp <;> omega
  have destinations := sources.addressStage names proto (t := destinationTests) ⟨rfl, rfl⟩ (decide (wanted ≠ .both))
    (fun a given => plain.macs_of_end (.inr given)) (some_entry .destination) (readable .destination) ⟨rfl, rfl⟩
    ((longer (Nat.lt_succ_self 3)).trans (by decide))
  have sports := destinations.listStage names proto .sourcePort true true (some_entry .sourcePort)
    (readable .sourcePort)
    (fun _ => ⟨rfl, fun given => by simp [Ends.portsGiven, given]⟩)
    ((longer (longer (Nat.lt_succ_self 3))).trans (by decide))
  have dports := sports.listStage names proto .destinationPort true true (some_entry .destinationPort)
    (readable .destinationPort) (fun _ => ⟨rfl, fun given => by simp [Ends.portsGiven, given]⟩) (by
      rw [length_append]
      exact Nat.succ_lt_succ ((longer (longer (Nat.lt_succ_self 3))).trans (by decide)))
  convert dports using 1
  · rfl
  · change _ = [none] ++ [(d.list isIngress .mark).bind _] ++ [(d.list isIngress .connmark).bind _] ++
      ((d.list isIngress .source).elim [] _) ++ ((d.list isIngress .destination).elim [] _) ++
      [(d.list isIngress .sourcePort).bind _] ++ [(d.list isIngress .destinationPort).bind _]
    rw [listStages, RuleDef.bits]
    cases source : d.list isIngress .source <;> cases destination : d.list isIngress .destination <;>
      simp [slotStage, source, destination, Wanted.requires, Slot.isPort]
  · simp [RuleDef.singles, slots, RuleDef.list, RuleDef.positive, RuleDef.negative]

end Plain

def Wanted.checks (wanted : Wanted) (ported : Bool) : Bool := wanted ≠ .both || ported

theorem Wanted.isSome_of_checks {ported : Bool} (given : ported) :
    ∀ g ∈ wanted.guards (wanted.checks ported), g.isSome :=
  wanted.isSome_of_mem_guards (by simp [Wanted.checks, given])

def checkStage (wanted : Wanted) (packet : Packet) (ported : Bool) (singles : List (Bool × Test)) :
    List (Option (Stage 32)) :=
  if singles = [] then []
  else [some ⟨false, fun c => wanted.admits (wanted.checks ported) packet && allHold packet c singles⟩]

section

variable {k : Common} {ported : Bool} {p : Progress} {stages : List (Option (Stage 32))} {singles : List (Bool × Test)}

theorem Sound.singleStage (sound : Sound r k packet ported p stages singles) (names : k.IsNamed)
    (proto : k.proto = wanted.text) (small : stages.length < 8) :
    Sound r k packet ported (singleStage ported k p) (stages ++ checkStage wanted packet ported singles) singles := by
  have index : p.masks.length = stages.length := sound.masks.length_eq
  rw [FirewallUtil.singleStage, checkStage]
  by_cases empty : singles = []
  · rwa [if_pos (sound.single_nil.2 empty), if_pos empty, append_nil]
  · have required : (!(decide (k.proto = lit "both") && !ported)) = wanted.checks ported := by
      rw [proto]
      cases wanted <;> cases ported <;> decide
    have parts : words isSpace
      (lit " " ++ lit " " ++ [] ++ quoteArg false p.checks.singleCheck ++ connmarkPart false stages.length) =
        words isSpace p.checks.singleCheck ++
          setMarkWords (hexConstant (bitValue false stages.length) ++ lit "/" ++ hexConstant
            (markBit stages.length)) := by
      have blanks : words isSpace (lit " " ++ lit " " ++ []) = [] := by decide
      have blank : words isSpace (lit " ") = [] := by decide
      have check : words isSpace (quoteArg false p.checks.singleCheck) = words isSpace p.checks.singleCheck := by
        rw [quoteArg, if_neg Bool.false_ne_true, if_neg Bool.false_ne_true, words_append_of_starts _ (by decide),
          words_append_of_ends (by decide), blank, append_nil, nil_append]
      rw [words_append_of_starts _ (startsApart_connmarkPart _ _), words_append_of_ends (by decide), blanks, check,
        words_connmarkPart, nil_append]
    rw [if_neg (mt sound.single_nil.1 empty), if_neg empty]
    dsimp only
    rw [computeMultiRules_own rfl, required, index, flatMap_singleton]
    have emits : Emits r k packet (bitAction false stages.length) (entryRules k (wanted.checks ported) _) _ :=
      emits_entryRules names proto (bitValue_lt small false) (markBit_lt small) parts fun g mem =>
        sound.single g fun given => wanted.isSome_of_checks given g mem
    exact sound.addStage emits (entryRules_ne_nil _ _ _)

theorem sumMarks_succ {masks : List (Bool × Bool)} (i : ℕ)
    (agree : List.Forall₂ (fun (m : Bool × Bool) (s : Option (Stage 32)) => m.2 = s.isSome ∧
      ∀ stage ∈ s, m.1 = stage.negated)
      masks stages) :
    sumMarks 0 (i + 1) masks = (total (24 + (i + 1)) (inverted stages), total (24 + (i + 1)) (present stages)) := by
  induction agree generalizing i with
  | nil => rfl
  | @cons m s masks stages own rest ih =>
    obtain ⟨isNegated, isMulti⟩ := m
    obtain ⟨multi, sign⟩ := own
    rw [sumMarks, ih (i + 1)]
    dsimp only at multi ⊢
    cases s with
    | none => simp [multi, inverted, present, total, Nat.add_assoc]
    | some stage =>
      have sign : isNegated = stage.negated := sign stage rfl
      simp [multi, sign, inverted, present, total, markBit_eq, Nat.add_assoc, Nat.add_comm]

theorem Sound.sumMarks_eq (sound : Sound r k packet ported p stages singles) {rest : List (Option (Stage 32))}
    (first : stages = none :: rest) :
    sumMarks 0 0 p.masks = (total 24 (inverted stages), total 24 (present stages)) := by
  have agree := sound.masks
  rw [first] at agree ⊢
  obtain ⟨m, masks, own, others, eq⟩ := forall₂_cons_right_iff.1 agree
  obtain ⟨isNegated, isMulti⟩ := m
  have multi : isMulti = false := own.1
  rw [eq, sumMarks, sumMarks_succ 0 others, multi]
  simp [inverted, present, total]

/-! ## The rules around the lists -/

def topByte : BitVec 32 := 0xFF000000#32

theorem getLsbD_topByte : ∀ j < 32, topByte.getLsbD j = decide (24 ≤ j) := by decide

theorem write_zero {c : BitVec 32} (clear : c &&& topByte = 0) : write c 0 topByte = c := by
  refine BitVec.eq_of_getLsbD_eq fun j small => ?_
  have bit : (c.getLsbD j && topByte.getLsbD j) = false := by
    rw [← getLsbD_and, clear]
    exact getLsbD_zero
  simp only [write, getLsbD_or, getLsbD_and, getLsbD_not, BitVec.ofNat_eq_ofNat, getLsbD_zero,
    decide_eq_true small]
  revert bit
  cases c.getLsbD j <;> cases topByte.getLsbD j <;> decide

theorem write_zero_and (c : BitVec 32) : write c 0 topByte &&& topByte = 0 := by
  refine BitVec.eq_of_getLsbD_eq fun j small => ?_
  simp only [write, getLsbD_or, getLsbD_and, getLsbD_not, BitVec.ofNat_eq_ofNat, getLsbD_zero]
  cases topByte.getLsbD j <;> simp

theorem readCommand_setTop (names : k.IsNamed) {v : ℕ} (small : v < 2 ^ 32) :
    readCommand r k.table k.chain (k.start ++ lit " -j CONNMARK --set-mark " ++ hexConstant v ++ lit "/0xFF000000") =
      some ⟨[], .setConnmark (ofNat 32 v) topByte⟩ := by
  have mask : hexConstant v ++ lit "/0xFF000000" = hexConstant v ++ lit "/" ++ hexConstant 0xFF000000 := by
    rw [append_assoc]
    exact congrArg (hexConstant v ++ ·) (by decide)
  rw [append_assoc, append_assoc, readCommand_start r names, words_append_of_ends (by decide), words_setMark, mask,
    (isWord_mask _ _).words_eq]
  exact readRule_setMark (.inl rfl) (Adds.nil none) small (by decide)

variable {target : Text}

theorem readCommand_compare (names : k.IsNamed) {v : ℕ} (small : v < 2 ^ 32) (terminal : Terminal target) :
    readCommand r k.table k.chain
      (k.start ++ (lit " -m connmark --mark " ++ hexConstant v ++ lit "/0xFF000000 -j " ++ target)) =
      some ⟨[(false, .connmark (ofNat 32 v) topByte)], .jump target⟩ := by
  have front : words isSpace (lit " -m connmark --mark ") = Field.flags .connmark false := by decide
  have jump : words isSpace (lit " -j " ++ target) = [lit "-j", target] := by
    rcases terminal with rfl | rfl <;> decide
  have mask : lit "/0xFF000000 -j " = lit "/" ++ hexConstant 0xFF000000 ++ lit " -j " := by decide
  have parts : lit " -m connmark --mark " ++ hexConstant v ++ lit "/0xFF000000 -j " ++ target =
      lit " -m connmark --mark " ++ (hexConstant v ++ lit "/" ++ hexConstant 0xFF000000) ++ (lit " -j " ++ target) := by
    rw [mask]
    simp [append_assoc]
  have starts : StartsApart isSpace (lit " -j " ++ target) := startsApart_append (by decide) (by decide) _
  rw [readCommand_start r names, parts, words_between (by decide) (isWord_mask _ _) starts, front, jump]
  have read : Field.connmark.read r (hexConstant v ++ lit "/" ++ hexConstant 0xFF000000) =
      some (.connmark (ofNat 32 v) topByte) := by
    rw [Field.read, readMark_mask small (by decide)]
    rfl
  have adds : Adds r none _ _ := adds_entry (isWord_mask v 0xFF000000) read nofun false
  simpa [protocolWords, protocolTests] using readRule_jump (.inl rfl) adds terminal

/-- A packet whose connection has the mark `c` with a zero top byte jumps to the target exactly if `jumps c`; otherwise
the top byte is zero in the end. -/
def Outcome (r : Reading) (k : Common) (packet : Packet) (target : Text) (texts : List Text)
    (jumps : BitVec 32 → Bool) : Prop :=
  ∃ rules, texts.mapM (readCommand r k.table k.chain) = some rules ∧ ∀ c, c &&& topByte = 0 →
    (runChain packet c rules).1 = (if jumps c then some target else none) ∧
      (jumps c = false → (runChain packet c rules).2 &&& topByte = 0)

def startMark (stages : List (Option (Stage 32))) (c : BitVec 32) : BitVec 32 :=
  write c (ofNat 32 (total 24 (inverted stages))) topByte

theorem ne_reject (terminal : Terminal target) : target ≠ lit "REJECT" := by
  rcases terminal with rfl | rfl <;> decide

theorem markedRules_eq {initial final : ℕ} (urls : urlRuleCount d = 0) (marks : sumMarks 0 0 p.masks = (initial, final))
    (terminal : Terminal target) : markedRules d k p target [] =
      (if 0 < initial then [k.start ++ lit " -j CONNMARK --set-mark " ++ hexConstant initial ++ lit "/0xFF000000"]
        else []) ++
      p.checks.multiRules ++
      [k.start ++ (lit " -m connmark --mark " ++ hexConstant final ++ lit "/0xFF000000 -j " ++ target),
        k.start ++ lit " -j CONNMARK --set-mark 0x0/0xFF000000"] := by
  have blank : lit (if lit "tcp-reset" <:+: [] then " -p tcp " else "") = [] := by decide
  rw [markedRules, marks, urls, blank]
  simp [ne_reject terminal]

theorem Sound.markedRules (sound : Sound r k packet ported p stages singles) (names : k.IsNamed)
    (urls : urlRuleCount d = 0) {rest : List (Option (Stage 32))} (first : stages = none :: rest)
    (short : stages.length ≤ 8)
    (terminal : Terminal target) :
    Outcome r k packet target (markedRules d k p target []) fun c => passes 24 stages (startMark stages c) := by
  have small : ∀ bits : List Bool, bits.length = stages.length → total 24 bits < 2 ^ 32 := fun bits length =>
    (Scratch.total_lt 24 bits).trans_le (Nat.pow_le_pow_right (by decide) (by omega))
  have smallInverted := small (inverted stages) (length_map _)
  have smallPresent := small (present stages) (length_map _)
  obtain ⟨rules, read, run⟩ := sound.rules
  -- the first rule is left out when it would write 0, which is there already
  obtain ⟨front, readFront, runFront⟩ : ∃ front, (if 0 < total 24 (inverted stages) then
      [k.start ++ lit " -j CONNMARK --set-mark " ++ hexConstant (total 24 (inverted stages)) ++ lit "/0xFF000000"] else
      []).mapM (readCommand r k.table k.chain) = some front ∧
      ∀ c, c &&& topByte = 0 → runChain packet c front = (none, startMark stages c) := by
    by_cases zero : total 24 (inverted stages) = 0
    · refine ⟨[], by rw [zero]; rfl, fun c clear => ?_⟩
      rw [startMark, zero]
      exact congrArg (Prod.mk none) (write_zero clear).symm
    · refine ⟨[⟨[], .setConnmark (ofNat 32 (total 24 (inverted stages))) topByte⟩], ?_, fun c _ => rfl⟩
      rw [if_pos (Nat.pos_of_ne_zero zero), mapM_cons, readCommand_setTop names smallInverted]
      rfl
  have reset : readCommand r k.table k.chain (k.start ++ lit " -j CONNMARK --set-mark 0x0/0xFF000000") =
      some ⟨[], .setConnmark 0 topByte⟩ := by
    have parts : lit " -j CONNMARK --set-mark 0x0/0xFF000000" =
        lit " -j CONNMARK --set-mark " ++ hexConstant 0 ++ lit "/0xFF000000" := by decide
    rw [parts, ← append_assoc, ← append_assoc]
    exact readCommand_setTop names (by decide)
  refine ⟨front ++ rules ++ [⟨[(false, .connmark (ofNat 32 (total 24 (present stages))) topByte)], .jump target⟩,
    ⟨[], .setConnmark 0 topByte⟩], ?_, fun c clear => ?_⟩
  · rw [markedRules_eq urls (sound.sumMarks_eq first) terminal]
    simp only [mapM_append, readFront, read, mapM_cons, mapM_nil,
      readCommand_compare names smallPresent terminal, reset]
    rfl
  · rw [runChain_append (runChain_append (runFront c clear) rules |>.trans (run _))]
    have met : (runStages 24 stages (startMark stages c) &&& topByte = ofNat 32 (total 24 (present stages))) ↔
        passes 24 stages (startMark stages c) := Scratch.runStages_and_mask_iff getLsbD_topByte (by omega) fun i => by
      rw [startMark, Scratch.getLsbD_write_total getLsbD_topByte (by simpa [inverted] using by omega),
        if_pos (by omega),
        Nat.add_sub_cancel_left]
    have test : allHold packet (runStages 24 stages (startMark stages c))
        [(false, .connmark (ofNat 32 (total 24 (present stages))) topByte)] = passes 24 stages
        (startMark stages c) := by
      rw [Bool.eq_iff_iff, ← met]
      simp [allHold, Test.holds]
    rw [runChain, test]
    by_cases pass : passes 24 stages (startMark stages c)
    · simp [pass]
    · simpa [pass, runChain, allHold] using write_zero_and _

theorem plainRules_eq (proto : k.proto = wanted.text) (terminal : Terminal target)
    (singleCheck : Text) : plainRules ported k singleCheck target [] =
      (wanted.guards (wanted.checks ported)).map fun g => k.start ++
      (guardText [] g ++ (singleCheck ++ (lit " -j " ++ target))) := by
  simp only [plainRules, proto, ne_reject terminal, false_and, if_false]
  cases wanted <;> cases ported <;>
    simp [Wanted.text, Wanted.guards, Wanted.checks, guardText, protocolName, lit]

theorem runChain_jumps {rules : List Rule} (same : ∀ rule ∈ rules, rule.action = .jump target) (c : BitVec 32) :
    runChain packet c rules = (if rules.any fun rule => allHold packet c rule.tests then some target else none, c) := by
  induction rules with
  | nil => rfl
  | cons rule rules ih =>
    rw [runChain, same rule mem_cons_self, any_cons, ih fun rule mem => same rule (mem_cons_of_mem _ mem)]
    by_cases holds : allHold packet c rule.tests
    · simp [holds]
    · simp [holds]

theorem Sound.plainRules (sound : Sound r k packet ported p stages singles) (names : k.IsNamed)
    (proto : k.proto = wanted.text) (terminal : Terminal target) :
    Outcome r k packet target (plainRules ported k p.checks.singleCheck target []) fun c =>
      wanted.admits (wanted.checks ported) packet && allHold packet c singles := by
  have jump : words isSpace (lit " -j " ++ target) = [lit "-j", target] := by
    rcases terminal with rfl | rfl <;> decide
  have emits : Emits r k packet (.jump target)
      ((wanted.guards (wanted.checks ported)).map fun g =>
        k.start ++ (guardText [] g ++ (p.checks.singleCheck ++ (lit " -j " ++ target))))
      fun c => wanted.admits (wanted.checks ported) packet && allHold packet c singles :=
    emits_guarded names (by decide) (by decide) fun g mem => by
      rw [words_append_of_starts _ (startsApart_append (by decide) (by decide) _), jump, ← append_assoc]
      exact readRule_jump (named_of_mem_guards g mem)
        (sound.single g fun given => wanted.isSome_of_checks given g mem) terminal
  obtain ⟨rules, read, same, any⟩ := emits
  refine ⟨rules, by rw [plainRules_eq proto terminal]; exact read, fun c clear => ?_⟩
  rw [runChain_jumps same, any]
  exact ⟨rfl, fun _ => clear⟩

end

end

end OpenWifi.FirewallUtil
