import OpenWifi.FirewallUtil.Commands
import Mathlib.Data.List.Forall2

/-!
# What the stages of `compute_rules` have computed

After each list the rules so far run as the stages of a conjunction in scratch bits, and the single check adds the tests
of the lists with one entry.
-/

namespace OpenWifi.FirewallUtil

open List Option
open Scratch (Stage runStages)

inductive Wanted where
  | tcp
  | udp
  | both
  deriving DecidableEq

def Wanted.text : Wanted → Text
  | .tcp => lit "tcp"
  | .udp => lit "udp"
  | .both => lit "both"

def Wanted.guards (requiresProto : Bool) : Wanted → List (Option Protocol)
  | .tcp => [some .tcp]
  | .udp => [some .udp]
  | .both => if requiresProto then [some .tcp, some .udp] else [none]

variable {requiresProto : Bool}

theorem Wanted.isSome_of_mem_guards (wanted : Wanted) (required : requiresProto) :
    ∀ g ∈ wanted.guards requiresProto, g.isSome := by
  subst required
  cases wanted <;> decide

def Wanted.admits (requiresProto : Bool) (packet : Packet) (wanted : Wanted) : Bool :=
  (wanted.guards requiresProto).any fun g => g.all (packet.protocol = ·)

theorem allHold_protocolTests (packet : Packet) (c : BitVec 32) (g : Option Protocol) :
    allHold packet c (protocolTests g) = g.all (packet.protocol = ·) := by
  cases g <;> simp [protocolTests, allHold, Test.holds]

/-! ## The rules of a list -/

section

variable {r : Reading} {k : Common} {packet : Packet} {wanted : Wanted}

def Emits (r : Reading) (k : Common) (packet : Packet) (action : Action) (texts : List Text)
    (fires : BitVec 32 → Bool) :
    Prop :=
  ∃ rules, texts.mapM (readCommand r k.table k.chain) = some rules ∧ (∀ rule ∈ rules, rule.action = action) ∧
    ∀ c, rules.any (fun rule => allHold packet c rule.tests) = fires c

theorem Emits.nil (action : Action) : Emits r k packet action [] fun _ => false :=
  ⟨[], rfl, nofun, fun _ => rfl⟩

variable {action : Action}

theorem Emits.append {texts texts' : List Text} {fires fires' : BitVec 32 → Bool}
    (emits : Emits r k packet action texts fires) (emits' : Emits r k packet action texts' fires') :
    Emits r k packet action (texts ++ texts') fun c => fires c || fires' c := by
  obtain ⟨rules, read, same, any⟩ := emits
  obtain ⟨rules', read', same', any'⟩ := emits'
  refine ⟨rules ++ rules', ?_, fun rule mem => ?_, fun c => ?_⟩
  · rw [mapM_append, read, read']
    rfl
  · exact (mem_append.1 mem).elim (same rule) (same' rule)
  · rw [any_append, any, any']

theorem Emits.single {text : Text} {tests : List (Bool × Test)}
    (read : readCommand r k.table k.chain text = some ⟨tests, action⟩) :
    Emits r k packet action [text] fun c => allHold packet c tests :=
  ⟨[⟨tests, action⟩], by rw [mapM_cons, read]; rfl, fun rule mem => by rw [mem_singleton.1 mem], fun c => by simp⟩

def guardText (blank : Text) : Option Protocol → Text
  | none => blank
  | some p => lit " -p " ++ protocolName p ++ lit " "

theorem named_of_mem_guards : ∀ g ∈ wanted.guards requiresProto, Named g := by
  cases wanted <;> cases requiresProto <;> simp [Wanted.guards, Named]

theorem words_guardText {blank : Text} (ends : EndsApart isSpace blank) (empty : words isSpace blank = [])
    {g : Option Protocol} (named : Named g) (text : Text) :
    words isSpace (guardText blank g ++ text) = protocolWords g ++ words isSpace text := by
  have tcp : words isSpace (lit " -p " ++ lit "tcp" ++ lit " ") = [lit "-p", lit "tcp"] := by decide
  have udp : words isSpace (lit " -p " ++ lit "udp" ++ lit " ") = [lit "-p", lit "udp"] := by decide
  rcases named with rfl | rfl | rfl
  · rw [guardText, words_append_of_ends ends, empty]
    rfl
  · rw [guardText, protocolName, words_append_of_ends (by decide), tcp]
    rfl
  · rw [guardText, protocolName, words_append_of_ends (by decide), udp]
    rfl

theorem emits_guarded (names : k.IsNamed) {blank commonPart : Text}
    (ends : EndsApart isSpace blank) (empty : words isSpace blank = []) {tests : List (Bool × Test)}
    (read : ∀ g ∈ wanted.guards requiresProto,
      readRule r (protocolWords g ++ words isSpace commonPart) = some ⟨protocolTests g ++ tests, action⟩) :
    Emits r k packet action ((wanted.guards requiresProto).map fun g => k.start ++ (guardText blank g ++ commonPart))
      fun c => wanted.admits requiresProto packet && allHold packet c tests := by
  have named : ∀ g ∈ wanted.guards requiresProto, Named g := named_of_mem_guards
  unfold Wanted.admits
  revert named read
  generalize wanted.guards requiresProto = gs
  intro read named
  induction gs with
  | nil => simpa using Emits.nil action
  | cons g gs ih =>
    have own : readCommand r k.table k.chain (k.start ++ (guardText blank g ++ commonPart)) =
        some ⟨protocolTests g ++ tests, action⟩ := by
      rw [readCommand_start r names, words_guardText ends empty (named g mem_cons_self)]
      exact read g mem_cons_self
    have first : Emits r k packet _ _ _ := Emits.single own
    have rest := ih (fun g mem => read g (mem_cons_of_mem _ mem)) fun g mem => named g (mem_cons_of_mem _ mem)
    simpa [allHold_append, allHold_protocolTests, Bool.and_or_distrib_right] using first.append rest

theorem entryRules_eq (proto : k.proto = wanted.text) (requiresProto : Bool) (commonPart : Text) :
    entryRules k requiresProto commonPart =
      (wanted.guards requiresProto).map fun g => k.start ++ (guardText (lit " ") g ++ commonPart) := by
  rw [entryRules, proto]
  cases wanted <;> cases requiresProto <;>
    simp [Wanted.text, Wanted.guards, guardText, protocolName, lit]

theorem emits_entryRules (names : k.IsNamed) (proto : k.proto = wanted.text)
    {commonPart : Text} {ws : List Text} {tests : List (Bool × Test)} {v m : ℕ} (smallV : v < 2 ^ 32)
    (smallM : m < 2 ^ 32)
    (parts : words isSpace commonPart = ws ++ setMarkWords (hexConstant v ++ lit "/" ++ hexConstant m))
    (adds : ∀ g ∈ wanted.guards requiresProto, Adds r g ws tests) :
    Emits r k packet (.setConnmark (BitVec.ofNat 32 v) (BitVec.ofNat 32 m)) (entryRules k requiresProto commonPart)
      fun c => wanted.admits requiresProto packet && allHold packet c tests := by
  rw [entryRules_eq proto]
  refine emits_guarded names (by decide) (by decide) fun g mem => ?_
  rw [parts, ← append_assoc]
  exact readRule_setMark (named_of_mem_guards g mem) (adds g mem) smallV smallM

theorem entryRules_ne_nil (k : Common) (requiresProto : Bool) (commonPart : Text) :
    entryRules k requiresProto commonPart ≠ [] := by
  unfold entryRules
  split
  · split <;> exact cons_ne_nil _ _
  · exact cons_ne_nil _ _

theorem flatMap_entryRules_ne_nil {entries : List Text} (some_entry : entries ≠ [])
    (commonPart : Text → Text) : (entries.flatMap fun e => entryRules k requiresProto (commonPart e)) ≠ [] := by
  obtain ⟨e, rest, rfl⟩ := exists_cons_of_ne_nil some_entry
  exact append_ne_nil_of_left_ne_nil (entryRules_ne_nil k requiresProto (commonPart e)) _

theorem words_quoteArg {entry : Text} (word : IsWord entry) : words isSpace (quoteArg false entry) = [entry] :=
  words_between (by decide) word (by decide)

theorem startsApart_quoteArg (entry : Text) : StartsApart isSpace (quoteArg false entry) :=
  startsApart_append (by simp [lit]) (startsApart_append (by decide) (by decide) _) _

theorem words_entry (f : Field) {entry : Text} (word : IsWord entry) {connmarkPart : Text}
    (starts : StartsApart isSpace connmarkPart) :
    words isSpace (f.texts.1 ++ lit " " ++ f.texts.2 ++ quoteArg false entry ++ connmarkPart) =
      f.flags false ++ [entry] ++ words isSpace connmarkPart := by
  rw [words_append_of_starts _ starts, words_append_of_starts _ (startsApart_quoteArg entry), words_quoteArg word]
  exact congrArg (· ++ [entry] ++ words isSpace connmarkPart) (f.words_texts false)

variable (isNegation : Bool) (maskByteIndex : ℕ)

def connmarkPart : Text :=
  lit " -j CONNMARK --set-mark " ++ (if isNegation then lit "0x0" else hexConstant (markBit maskByteIndex)) ++ lit
    "/" ++
    hexConstant (markBit maskByteIndex)

def bitValue : ℕ := if isNegation then 0 else markBit maskByteIndex

theorem words_setMark :
    words isSpace (lit " -j CONNMARK --set-mark ") = [lit "-j", lit "CONNMARK", lit "--set-mark"] := by
  decide

theorem words_connmarkPart : words isSpace (connmarkPart isNegation maskByteIndex) =
    setMarkWords (hexConstant (bitValue isNegation maskByteIndex) ++ lit "/" ++ hexConstant
      (markBit maskByteIndex)) := by
  have value : (if isNegation then lit "0x0" else hexConstant (markBit maskByteIndex)) =
      hexConstant (bitValue isNegation maskByteIndex) := by
    cases isNegation
    · rfl
    · exact (by decide : lit "0x0" = hexConstant 0)
  rw [connmarkPart, value, append_assoc, append_assoc, words_append_of_ends (by decide), words_setMark, ← append_assoc,
    (isWord_mask _ _).words_eq]
  rfl

theorem startsApart_connmarkPart : StartsApart isSpace (connmarkPart isNegation maskByteIndex) := by
  rw [connmarkPart, append_assoc, append_assoc]
  exact startsApart_append (by decide) (by decide) _

theorem markBit_eq (i : ℕ) : markBit i = 2 ^ (24 + i) := by
  rw [markBit, show 0x01000000 = 2 ^ 24 by decide, ← Nat.pow_add]

theorem markBit_lt {i : ℕ} (small : i < 8) : markBit i < 2 ^ 32 := by
  rw [markBit_eq]
  exact Nat.pow_lt_pow_right (by decide) (by omega)

theorem bitValue_lt {i : ℕ} (small : i < 8) (isNegation : Bool) : bitValue isNegation i < 2 ^ 32 := by
  cases isNegation
  · exact markBit_lt small
  · exact Nat.two_pow_pos 32

def bitAction : Action :=
  .setConnmark (BitVec.ofNat 32 (bitValue isNegation maskByteIndex)) (BitVec.ofNat 32 (markBit maskByteIndex))

/-! ## Entries -/

abbrev Entry := Field × Text

structure Readable (r : Reading) (entry : Entry) : Prop where
  word : IsWord entry.2
  read : (entry.1.read r entry.2).isSome

instance (r : Reading) (entry : Entry) : Decidable (Readable r entry) :=
  decidable_of_iff (IsWord entry.2 ∧ (entry.1.read r entry.2).isSome) ⟨fun h => ⟨h.1, h.2⟩, fun h => ⟨h.1, h.2⟩⟩

/-- The test of the entry on a packet whose connection has the mark `c`. -/
def Entry.holds (r : Reading) (packet : Packet) (c : BitVec 32) (entry : Entry) : Bool :=
  (entry.1.read r entry.2).any (Test.holds packet c)

theorem emits_entry (names : k.IsNamed) (proto : k.proto = wanted.text) {entry : Entry} (readable : Readable r entry)
    (ports : entry.1.isPort → ∀ g ∈ wanted.guards requiresProto, g.isSome) (isNegation : Bool) {i : ℕ} (small : i < 8) :
    Emits r k packet (bitAction isNegation i) (entryRules k requiresProto
        (entry.1.texts.1 ++ lit " " ++ entry.1.texts.2 ++ quoteArg false entry.2 ++ connmarkPart isNegation i))
      fun c => wanted.admits requiresProto packet && entry.holds r packet c := by
  obtain ⟨test, read⟩ := isSome_iff_exists.1 readable.read
  have parts := words_entry entry.1 readable.word (startsApart_connmarkPart isNegation i)
  rw [words_connmarkPart] at parts
  have emits : Emits r k packet _ _ _ := emits_entryRules names proto (bitValue_lt small isNegation) (markBit_lt small)
    parts fun g mem => adds_entry readable.word read (fun port => ports port g mem) false
  simpa [Entry.holds, read, allHold, bitAction] using emits

theorem emits_entries (names : k.IsNamed) (proto : k.proto = wanted.text)
    (requiresProto : Bool) {f : Field} {entries : List Text} (readable : ∀ e ∈ entries, Readable r (f, e))
    (ports : f.isPort → ∀ g ∈ wanted.guards requiresProto, g.isSome) (isNegation : Bool) {i : ℕ} (small : i < 8) :
    Emits r k packet (bitAction isNegation i) (entries.flatMap fun e => entryRules k requiresProto
        (f.texts.1 ++ lit " " ++ f.texts.2 ++ quoteArg false e ++ connmarkPart isNegation i))
      fun c => wanted.admits requiresProto packet && entries.any fun e => Entry.holds r packet c (f, e) := by
  induction entries with
  | nil => simpa using Emits.nil _
  | cons e entries ih =>
    have own : Emits r k packet _ _ _ := emits_entry names proto (readable e mem_cons_self) ports isNegation small
    have rest := ih fun e mem => readable e (mem_cons_of_mem _ mem)
    simpa [Bool.and_or_distrib_left] using own.append rest

/-- The rules so far run as the stages, and the single check adds the tests; `ported` says whether there is a list of
ports. -/
structure Sound (r : Reading) (k : Common) (packet : Packet) (ported : Bool) (p : Progress)
    (stages : List (Option (Stage 32)))
    (singles : List (Bool × Test)) : Prop where
  rules : ∃ rules, p.checks.multiRules.mapM (readCommand r k.table k.chain) = some rules ∧
    ∀ c, runChain packet c rules = (none, runStages 24 stages c)
  single : ∀ protocol : Option Protocol, (ported → protocol.isSome) →
    Adds r protocol (words isSpace p.checks.singleCheck) singles
  masks : List.Forall₂ (fun m s => m.2 = s.isSome ∧ ∀ stage ∈ s, m.1 = stage.negated) p.masks stages
  multi_nil : p.checks.multiRules = [] ↔ ∀ s ∈ stages, s = none
  single_nil : p.checks.singleCheck = [] ↔ singles = []

variable {ported : Bool} {p : Progress} {stages : List (Option (Stage 32))} {singles : List (Bool × Test)}

theorem write_bit (i : ℕ) (c : BitVec 32) :
    Scratch.write c (BitVec.ofNat 32 (bitValue isNegation i)) (BitVec.ofNat 32 (markBit i)) =
      Scratch.assign c (24 + i) (!isNegation) := by
  have bit : BitVec.ofNat 32 (markBit i) = BitVec.twoPow 32 (24 + i) := by
    refine BitVec.eq_of_toNat_eq ?_
    rw [markBit_eq, BitVec.toNat_ofNat, BitVec.toNat_twoPow]
  cases isNegation
  · rw [bitValue, if_neg (by decide), bit]
    rfl
  · rw [bitValue, if_pos rfl, bit]
    rfl

section

variable (sound : Sound r k packet ported p stages singles)
include sound

theorem Sound.addStage {isNegation : Bool} {texts : List Text} {fires : BitVec 32 → Bool}
    (emits : Emits r k packet (bitAction isNegation stages.length) texts fires) (some_text : texts ≠ []) :
    Sound r k packet ported ⟨{ p.checks with multiRules := p.checks.multiRules ++ texts },
      p.masks ++ [(isNegation, true)]⟩
      (stages ++ [some ⟨isNegation, fires⟩]) singles where
  rules := by
    obtain ⟨rules, read, run⟩ := sound.rules
    obtain ⟨rules', read', same, any⟩ := emits
    refine ⟨rules ++ rules', ?_, fun c => ?_⟩
    · rw [mapM_append, read, read']
      rfl
    · rw [runChain_append (run c), runChain_same same, Scratch.runStages_append, any, write_bit]
      rfl
  single := sound.single
  masks := rel_append sound.masks (.cons ⟨rfl, fun stage mem => by rw [← some.inj mem]⟩ .nil)
  multi_nil := by simp [some_text]
  single_nil := sound.single_nil

theorem Sound.skip (isNegation : Bool) :
    Sound r k packet ported ⟨p.checks, p.masks ++ [(isNegation, false)]⟩ (stages ++ [none]) singles where
  rules := by
    obtain ⟨rules, read, run⟩ := sound.rules
    refine ⟨rules, read, fun c => ?_⟩
    rw [run, Scratch.runStages_append]
    rfl
  single := sound.single
  masks := rel_append sound.masks (.cons ⟨rfl, nofun⟩ .nil)
  multi_nil := by simp [sound.multi_nil, or_imp]
  single_nil := sound.single_nil

theorem Sound.addSingle {entry : Entry} {test : Test} (word : IsWord entry.2)
    (read : entry.1.read r entry.2 = some test) (ports : entry.1.isPort → ported) (isNegation : Bool) :
    Sound r k packet ported ⟨{ p.checks with
        singleCheck := lit " " ++ entry.1.texts.1 ++ lit (if isNegation then " ! " else " ") ++ entry.1.texts.2 ++
          quoteArg false entry.2 ++ p.checks.singleCheck }, p.masks ++ [(isNegation, false)]⟩
      (stages ++ [none]) ((isNegation, test) :: singles) where
  rules := (sound.skip isNegation).rules
  single := by
    intro protocol given
    have ends : EndsApart isSpace
      (lit " " ++ entry.1.texts.1 ++ lit (if isNegation then " ! " else " ") ++ entry.1.texts.2 ++
        quoteArg false entry.2) :=
          endsApart_append _ (by simp [quoteArg, lit]) (endsApart_append _ (by decide) (by decide))
    have first : words isSpace
      (lit " " ++ entry.1.texts.1 ++ lit (if isNegation then " ! " else " ") ++ entry.1.texts.2) =
        entry.1.flags isNegation := by
      rw [append_assoc, append_assoc, words_append_of_ends (by decide), ← append_assoc,
        Field.words_texts, show words isSpace (lit " ") = [] by decide, nil_append]
    rw [words_append_of_ends ends, words_append_of_starts _ (startsApart_quoteArg _), first, words_quoteArg word]
    exact (adds_entry word read (fun port => given (ports port)) isNegation).append (sound.single protocol given)
  masks := (sound.skip isNegation).masks
  multi_nil := (sound.skip isNegation).multi_nil
  single_nil := by simp [lit]

end

/-! ## Lists -/

structure Chosen where
  negated : Bool
  entries : List Entry
  own : Bool

def Chosen.stage (r : Reading) (packet : Packet) (admits : Bool) (list : Chosen) : Option (Stage 32) :=
  if list.own then some ⟨list.negated, fun c => admits && list.entries.any (Entry.holds r packet c)⟩ else none

def Chosen.tests (r : Reading) (list : Chosen) : List (Bool × Test) :=
  if list.own then [] else list.entries.filterMap fun e => (e.1.read r e.2).map (list.negated, ·)

/-- The list that counts.  It has rules of its own unless it has one entry, and a negated list also when a negation
cannot stand in the single check. -/
def choose (positive negated : Option (List Entry)) (singleNegation : Bool) : Option Chosen :=
  (positive.or negated).map fun entries =>
    ⟨positive.isNone, entries, (positive.isNone && !singleNegation) || entries.length != 1⟩

def entriesFor (f : Field) (entries? : Option (List Text)) :
    Option (List Entry) := entries?.map fun entries => entries.map (f, ·)

theorem computeMultiRules_own {entries : List Text} {neverSingle : Bool}
    (own : (neverSingle || entries.length != 1) = true)
    (checks : Checks) (testPrefix1 testPrefix2 : Text) (isNegation : Bool) (maskByteIndex : ℕ)
    (requiresProto quotedArgs : Bool) :
    computeMultiRules (some entries) checks neverSingle k testPrefix1 testPrefix2 isNegation maskByteIndex requiresProto
      quotedArgs = (2, { checks with
        multiRules := checks.multiRules ++ entries.flatMap fun entry => entryRules k requiresProto
          (testPrefix1 ++ lit " " ++ testPrefix2 ++ quoteArg quotedArgs entry ++ connmarkPart isNegation maskByteIndex)
            }) := by
  match entries, neverSingle with
  | [], true | [], false | [_], true | _ :: _ :: _, true | _ :: _ :: _, false => rfl
  | [_], false => exact absurd own (by simp)

theorem Sound.listStage (sound : Sound r k packet ported p stages singles) (names : k.IsNamed)
    (proto : k.proto = wanted.text) (f : Field) {positive negated : Option (List Text)}
    (singleNegation requiresProto : Bool)
    (some_entry : ∀ entries ∈ (entriesFor f positive).or (entriesFor f negated), entries ≠ [])
    (readable : ∀ entries ∈ (entriesFor f positive).or (entriesFor f negated), ∀ e ∈ entries, Readable r e)
    (ports : f.isPort → requiresProto ∧ ((positive.or negated).isSome → ported)) (small : stages.length < 8) :
    Sound r k packet ported (listStage positive negated singleNegation f.texts.1 f.texts.2 requiresProto k p)
      (stages ++ [(choose (entriesFor f positive) (entriesFor f negated) singleNegation).bind
        (Chosen.stage r packet (wanted.admits requiresProto packet))])
      ((choose (entriesFor f positive) (entriesFor f negated) singleNegation).elim [] (Chosen.tests r) ++ singles) := by
  have index : p.masks.length = stages.length := sound.masks.length_eq
  rcases chosen : positive.or negated with _ | entries
  · obtain ⟨rfl, rfl⟩ := or_eq_none_iff.1 chosen
    exact sound.skip false
  · have sign : (positive.isNone && negated.isSome) = positive.isNone := by
      cases positive with
      | none =>
        rw [none_or] at chosen
        simp [chosen]
      | some _ => rfl
    rw [chosen] at ports
    have list : (entriesFor f positive).or (entriesFor f negated) = some (entries.map (f, ·)) := by
      rw [entriesFor, entriesFor, ← map_or, chosen]
      rfl
    have isNone : (entriesFor f positive).isNone = positive.isNone := isNone_map
    have some_entry : entries ≠ [] := fun empty => some_entry _ list (by rw [empty]; rfl)
    have readable : ∀ e ∈ entries, Readable r (f, e) := fun e mem => readable _ list _ (mem_map_of_mem mem)
    simp only [FirewallUtil.listStage, choose, list, chosen, sign, index, map_some, bind_some,
      elim_some, length_map, isNone]
    by_cases own : ((positive.isNone && !singleNegation) || entries.length != 1) = true
    · rw [computeMultiRules_own own, Chosen.stage, if_pos own, Chosen.tests, if_pos own, nil_append]
      have emits : Emits r k packet _ _ _ := emits_entries names proto requiresProto readable
        (fun port => wanted.isSome_of_mem_guards (ports port).1) positive.isNone small
      simp only [List.any_map]
      exact sound.addStage emits (flatMap_entryRules_ne_nil some_entry _)
    · obtain ⟨never, one⟩ : (positive.isNone && !singleNegation) = false ∧ entries.length = 1 := by simpa using own
      obtain ⟨e, rfl⟩ := length_eq_one_iff.1 one
      obtain ⟨test, read⟩ := isSome_iff_exists.1 (readable e mem_cons_self).read
      have added := sound.addSingle (readable e mem_cons_self).word read (fun port => (ports port).2 rfl)
        positive.isNone
      simpa [never, computeMultiRules, Chosen.stage, Chosen.tests, read] using added

def AddressDef.entries (ip range : Field) (a : AddressDef) : List Entry := a.ips.map (ip, ·) ++ a.ranges.map (range, ·)

theorem addressRules_multi (checks : Checks) (list : List Text × Text × Text) (isNegated : Bool) (maskByteIndex : ℕ)
    (includeProto : Bool) : addressRules true isNegated maskByteIndex includeProto k checks list = { checks with
      multiRules := checks.multiRules ++ list.1.flatMap fun e => entryRules k includeProto
        (list.2.1 ++ lit " " ++ list.2.2 ++ quoteArg false e ++ connmarkPart isNegated maskByteIndex) } := by
  rw [addressRules]
  split
  case isTrue empty => rw [empty, flatMap_nil, append_nil]
  case isFalse => rw [computeMultiRules_own rfl]

structure AddressTests.For (t : AddressTests) (ip range : Field) : Prop where
  ip : t.ip = ip.texts
  range : t.range = range.texts

theorem AddressTests.foldl_lists (t : AddressTests) {a : AddressDef} (macs : a.macs = []) (isMulti isNegated : Bool)
    (maskByteIndex : ℕ) (includeProto : Bool) (checks : Checks) :
    (t.lists a).foldl (addressRules isMulti isNegated maskByteIndex includeProto k) checks =
      addressRules isMulti isNegated maskByteIndex includeProto k
        (addressRules isMulti isNegated maskByteIndex includeProto k checks (a.ips, t.ip)) (a.ranges, t.range) := by
  cases mac : t.mac <;> simp [AddressTests.lists, mac, addressRules, macs]

theorem AddressTests.sum_lists (t : AddressTests) {a : AddressDef} (macs : a.macs = []) (ip range : Field) :
    ((t.lists a).map fun l => l.1.length).sum = (a.entries ip range).length := by
  cases mac : t.mac <;> simp [AddressTests.lists, mac, macs, AddressDef.entries]

theorem Sound.addressStage (sound : Sound r k packet ported p stages singles) (names : k.IsNamed)
    (proto : k.proto = wanted.text) {t : AddressTests} {ip range : Field} (fields : t.For ip range)
    {positive negated : Option AddressDef} (includeProto : Bool) (macs : ∀ a ∈ positive.or negated, a.macs = [])
    (some_entry : ∀ entries ∈ (positive.map (AddressDef.entries ip range)).or
      (negated.map (AddressDef.entries ip range)),
      entries ≠ [])
    (readable : ∀ entries ∈ (positive.map (AddressDef.entries ip range)).or (negated.map (AddressDef.entries ip range)),
      ∀ e ∈ entries, Readable r e) (noPort : ip.isPort = false ∧ range.isPort = false) (small : stages.length < 8) :
    Sound r k packet ported (addressStage positive negated t includeProto k p)
      (stages ++ (choose (positive.map (AddressDef.entries ip range)) (negated.map (AddressDef.entries ip range))
        true).elim []
        fun list => [list.stage r packet (wanted.admits includeProto packet)])
      ((choose (positive.map (AddressDef.entries ip range)) (negated.map (AddressDef.entries ip range)) true).elim []
        (Chosen.tests r) ++ singles) := by
  have index : p.masks.length = stages.length := sound.masks.length_eq
  rcases chosen : positive.or negated with _ | a
  · obtain ⟨rfl, rfl⟩ := or_eq_none_iff.1 chosen
    simpa [FirewallUtil.addressStage, choose] using sound
  · have list : (positive.map (AddressDef.entries ip range)).or (negated.map (AddressDef.entries ip range)) =
        some (a.entries ip range) := by
      rw [← map_or, chosen]
      rfl
    have macs := macs a chosen
    have some_entry := some_entry _ list
    have readable := readable _ list
    have readableIps : ∀ e ∈ a.ips, Readable r (ip, e) := fun e mem => readable _ (by simp [AddressDef.entries, mem])
    have readableRanges : ∀ e ∈ a.ranges, Readable r (range, e) := fun e mem =>
      readable _ (by simp [AddressDef.entries, mem])
    have several : ((a.entries ip range).length != 1) = decide (1 < (a.entries ip range).length) := by
      have := length_pos_iff.2 some_entry
      rw [Bool.eq_iff_iff, bne_iff_ne, decide_eq_true_iff]
      omega
    simp only [FirewallUtil.addressStage, choose, list, chosen, map_some, elim_some, index,
      t.sum_lists macs ip range, t.foldl_lists macs, several, isNone_map, Bool.not_true, Bool.and_false, Bool.false_or]
    by_cases own : 1 < (a.entries ip range).length
    · rw [decide_eq_true own, addressRules_multi, addressRules_multi, Chosen.stage, if_pos rfl,
        Chosen.tests, if_pos rfl,
        nil_append, fields.ip, fields.range]
      have ips : Emits r k packet _ _ _ := emits_entries names proto includeProto readableIps
        (fun port => absurd port (by simp [noPort.1])) positive.isNone small
      have ranges : Emits r k packet _ _ _ := emits_entries names proto includeProto readableRanges
        (fun port => absurd port (by simp [noPort.2])) positive.isNone small
      have some_text : ∀ (commonIp commonRange : Text → Text),
        (a.ips.flatMap fun e => entryRules k includeProto (commonIp e)) ++
          (a.ranges.flatMap fun e => entryRules k includeProto (commonRange e)) ≠ [] := by
        intro commonIp commonRange
        by_cases empty : a.ips = []
        · have : a.ranges ≠ [] := fun none => by simp [AddressDef.entries, empty, none] at own
          exact append_ne_nil_of_right_ne_nil _ (flatMap_entryRules_ne_nil this _)
        · exact append_ne_nil_of_left_ne_nil (flatMap_entryRules_ne_nil empty _) _
      have added := sound.addStage (ips.append ranges) (some_text _ _)
      simpa only [append_assoc, ← Bool.and_or_distrib_left, AddressDef.entries, any_append, List.any_map,
        Function.comp_def] using added
    · have one : (a.entries ip range).length = 1 := le_antisymm (not_lt.1 own) (length_pos_iff.2 some_entry)
      rw [decide_eq_false own, fields.ip, fields.range]
      rcases ips : a.ips with _ | ⟨e, rest⟩
      · obtain ⟨e, ranges⟩ := length_eq_one_iff.1 (by simpa [AddressDef.entries, ips] using one)
        have entry := readableRanges e (by simp [ranges])
        obtain ⟨test, read⟩ := isSome_iff_exists.1 entry.read
        have added := sound.addSingle entry.word read (fun port => absurd port (by simp [noPort.2])) positive.isNone
        simpa [addressRules, computeMultiRules, Chosen.stage, Chosen.tests, AddressDef.entries, ips,
          ranges, read] using added
      · obtain ⟨rfl, ranges⟩ : rest = [] ∧ a.ranges = [] := by
          simpa [AddressDef.entries, ips, length_eq_zero_iff] using one
        have entry := readableIps e (by simp [ips])
        obtain ⟨test, read⟩ := isSome_iff_exists.1 entry.read
        have added := sound.addSingle entry.word read (fun port => absurd port (by simp [noPort.1])) positive.isNone
        simpa [addressRules, computeMultiRules, Chosen.stage, Chosen.tests, AddressDef.entries, ips,
          ranges, read] using added

end

end OpenWifi.FirewallUtil
