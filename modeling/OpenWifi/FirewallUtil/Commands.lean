import OpenWifi.FirewallUtil.ComputeRules

/-!
# The commands as rules

The texts that `compute_rules` puts together are read back: the words of one test add this test to the rule that is
being read, and the words behind `-j` complete the rule.
-/

namespace OpenWifi.FirewallUtil

open List Option FirewallUtil.Parser

/-! ## Words -/

def wordChar (c : Char) : Bool := c.isAlphanum || c ∈ ['.', '/', ':', '-', '_']

structure IsWord (text : Text) : Prop where
  ne_nil : text ≠ []
  chars : ∀ c ∈ text, wordChar c

instance (text : Text) : Decidable (IsWord text) :=
  decidable_of_iff (text ≠ [] ∧ text.all wordChar)
    ⟨fun h => ⟨h.1, all_eq_true.1 h.2⟩, fun h => ⟨h.1, all_eq_true.2 h.2⟩⟩

theorem isSpace_of_wordChar {c : Char} (h : wordChar c) : isSpace c = false := by
  by_contra space
  simp only [isSpace, Bool.not_eq_false, decide_eq_true_eq, mem_cons, not_mem_nil, or_false] at space
  rcases space with rfl | rfl | rfl | rfl | rfl | rfl <;> exact absurd h (by decide)

theorem IsWord.words_eq {w : Text} (h : IsWord w) : words isSpace w = [w] :=
  words_singleton h.ne_nil fun c mem => isSpace_of_wordChar (h.chars c mem)

theorem IsWord.ne_bang {w : Text} (h : IsWord w) : w ≠ lit "!" := by
  rintro rfl
  exact absurd (h.chars '!' (by decide)) (by decide)

theorem endsApart_append (a : Text) {b : Text} (ne : b ≠ []) (h : EndsApart isSpace b) :
    EndsApart isSpace (a ++ b) := by
  intro c mem
  rw [getLast?_append_of_ne_nil a ne] at mem
  exact h c mem

theorem startsApart_append {a : Text} (ne : a ≠ []) (h : StartsApart isSpace a) (b : Text) :
    StartsApart isSpace (a ++ b) := by
  intro c mem
  rw [head?_append_of_ne_nil a ne] at mem
  exact h c mem

theorem words_between {a w b : Text} (ends : EndsApart isSpace a) (word : IsWord w) (starts : StartsApart isSpace b) :
    words isSpace (a ++ w ++ b) = words isSpace a ++ w :: words isSpace b := by
  rw [append_assoc, words_append_of_ends ends, words_append_of_starts w starts, word.words_eq, singleton_append]

structure Common.IsNamed (k : Common) : Prop where
  table : IsWord k.table
  chain : IsWord k.chain

theorem Common.words_start {k : Common} (names : k.IsNamed) (text : Text) :
    words isSpace (k.start ++ text) = [lit "iptables", lit "-t", k.table, lit "-A", k.chain] ++ words isSpace text := by
  have ends : EndsApart isSpace (lit "iptables -t " ++ k.table ++ lit " -A ") :=
    endsApart_append _ (by decide) (by decide)
  have whole : EndsApart isSpace k.start := endsApart_append _ (by decide) (by decide)
  have first : words isSpace (lit "iptables -t ") = [lit "iptables", lit "-t"] := by decide
  have second : words isSpace (lit " -A ") = [lit "-A"] := by decide
  have last : words isSpace (lit " ") = [] := by decide
  rw [words_append_of_ends whole, Common.start, words_between ends names.chain (by decide),
    words_between (by decide) names.table (by decide), first, second, last]
  simp [cons_append, nil_append]

theorem readCommand_start (r : Reading) {k : Common} (names : k.IsNamed) (text : Text) :
    readCommand r k.table k.chain (k.start ++ text) = readRule r (words isSpace text) := by
  rw [readCommand, k.words_start names]
  exact if_pos ⟨rfl, rfl, rfl, rfl, rfl⟩

theorem exists_digit {n : ℕ} {c : Char} (mem : c ∈ Nat.toDigits 16 n) : ∃ d < 16, c = Nat.digitChar d := by
  induction n using Nat.strong_induction_on with
  | _ n ih =>
    rw [Nat.toDigits_eq_if (by decide)] at mem
    split at mem
    case isTrue small => exact ⟨n, small, mem_singleton.1 mem⟩
    case isFalse large =>
      rcases mem_append.1 mem with mem | mem
      · exact ih (n / 16) (by omega) mem
      · exact ⟨n % 16, Nat.mod_lt n (by decide), mem_singleton.1 mem⟩

theorem alphanum_hexConstant {n : ℕ} {c : Char} (mem : c ∈ hexConstant n) : c.isAlphanum := by
  rcases mem_cons.1 mem with rfl | mem
  · decide
  rcases mem_cons.1 mem with rfl | mem
  · decide
  obtain ⟨digit, isDigit, rfl⟩ := mem_map.1 mem
  obtain ⟨d, small, rfl⟩ := exists_digit isDigit
  exact (by decide : ∀ d < 16, d.digitChar.toUpper.isAlphanum) d small

theorem isWord_hexConstant (n : ℕ) : IsWord (hexConstant n) :=
  ⟨cons_ne_nil _ _, fun c mem => by simp [wordChar, alphanum_hexConstant mem]⟩

theorem isWord_mask (v m : ℕ) : IsWord (hexConstant v ++ lit "/" ++ hexConstant m) := by
  have slash := forall_mem_append.2 ⟨(isWord_hexConstant v).chars, forall_mem_singleton.2 (by decide : wordChar '/')⟩
  exact ⟨cons_ne_nil _ _, forall_mem_append.2 ⟨slash, (isWord_hexConstant m).chars⟩⟩

theorem readWord_hexConstant {n : ℕ} (small : n < 2 ^ 32) : readWord (hexConstant n) = some (BitVec.ofNat 32 n) := by
  rw [readWord, constant_hexConstant, bind_some, if_pos small]

theorem readMark_mask {v m : ℕ} (smallV : v < 2 ^ 32) (smallM : m < 2 ^ 32) :
    readMark (hexConstant v ++ lit "/" ++ hexConstant m) = some (BitVec.ofNat 32 v, BitVec.ofNat 32 m) := by
  have plain : ∀ c ∈ hexConstant v, (decide (c ≠ '/')) = true := fun c mem => by
    have digit := alphanum_hexConstant mem
    refine decide_eq_true fun eq => ?_
    rw [eq] at digit
    exact absurd digit (by decide)
  have front : (hexConstant v ++ lit "/" ++ hexConstant m).takeWhile (· ≠ '/') = hexConstant v := by
    rw [append_assoc, takeWhile_append_of_pos plain]
    simp [lit]
  have rest : (hexConstant v ++ lit "/" ++ hexConstant m).dropWhile (· ≠ '/') = '/' :: hexConstant m := by
    rw [append_assoc, dropWhile_append_of_pos plain]
    simp [lit]
  rw [readMark, rest]
  dsimp only
  rw [front, readWord_hexConstant smallV, readWord_hexConstant smallM]
  rfl

/-! ## Tests -/

inductive Field where
  | mark
  | connmark
  | source
  | sourceRange
  | destination
  | destinationRange
  | sourcePort
  | destinationPort
  deriving DecidableEq

namespace Field

def texts : Field → Text × Text
  | .mark => (lit " -m mark ", lit " --mark ")
  | .connmark => (lit " -m connmark ", lit " --mark ")
  | .source => sourceTests.ip
  | .sourceRange => sourceTests.range
  | .destination => destinationTests.ip
  | .destinationRange => destinationTests.range
  | .sourcePort => (lit " --sport ", [])
  | .destinationPort => (lit " --dport ", [])

def isPort : Field → Bool
  | .sourcePort | .destinationPort => true
  | _ => false

def read (r : Reading) (entry : Text) : Field → Option Test
  | .mark => (readMark entry).map fun v => .mark v.1 v.2
  | .connmark => (readMark entry).map fun v => .connmark v.1 v.2
  | .source => (r.address entry).map .source
  | .sourceRange => (r.range entry).map .source
  | .destination => (r.address entry).map .destination
  | .destinationRange => (r.range entry).map .destination
  | .sourcePort => (r.port entry).map .sourcePort
  | .destinationPort => (r.port entry).map .destinationPort

def module : Field → Option Module
  | .mark => some .mark
  | .connmark => some .connmark
  | .sourceRange | .destinationRange => some .iprange
  | .source | .destination | .sourcePort | .destinationPort => none

def flag : Field → Flag
  | .mark | .connmark => .mark
  | .source => .source
  | .sourceRange => .sourceRange
  | .destination => .destination
  | .destinationRange => .destinationRange
  | .sourcePort => .sourcePort
  | .destinationPort => .destinationPort

def flags (f : Field) (inverted : Bool) : List Text :=
  let bang := if inverted then [lit "!"] else []
  match f with
  | .mark => [lit "-m", lit "mark"] ++ bang ++ [lit "--mark"]
  | .connmark => [lit "-m", lit "connmark"] ++ bang ++ [lit "--mark"]
  | .source => lit "-s" :: bang
  | .sourceRange => [lit "-m", lit "iprange"] ++ bang ++ [lit "--src-range"]
  | .destination => lit "-d" :: bang
  | .destinationRange => [lit "-m", lit "iprange"] ++ bang ++ [lit "--dst-range"]
  | .sourcePort => lit "--sport" :: bang
  | .destinationPort => lit "--dport" :: bang

theorem words_texts (f : Field) (inverted : Bool) :
    words isSpace (f.texts.1 ++ lit (if inverted then " ! " else " ") ++ f.texts.2) = f.flags inverted := by
  cases f <;> cases inverted <;> decide

end Field

variable {r : Reading}

def Adds (r : Reading) (protocol : Option Protocol) (ws : List Text) (tests : List (Bool × Test)) : Prop :=
  ∀ before module, ∃ module', ws.foldlM (step r) (.idle before protocol module) =
    some (.idle (before ++ tests) protocol module')

theorem Adds.nil (protocol : Option Protocol) : Adds r protocol [] [] := fun before module =>
  ⟨module, by rw [append_nil]; rfl⟩

variable {protocol : Option Protocol}

theorem Adds.append {ws ws' : List Text} {tests tests' : List (Bool × Test)}
    (adds : Adds r protocol ws tests) (adds' : Adds r protocol ws' tests') :
    Adds r protocol (ws ++ ws') (tests ++ tests') := by
  intro before module
  obtain ⟨module₁, read⟩ := adds before module
  obtain ⟨module₂, read'⟩ := adds' (before ++ tests) module₁
  refine ⟨module₂, ?_⟩
  rw [foldlM_append, read, ← append_assoc]
  exact read'

theorem Parser.step_argument {st : Parser} {flag : Flag} (pending : st.pending = some flag) {w : Text}
    (word : IsWord w) :
    st.step r w = { st with pending := none }.argument r w flag := by
  rw [step, if_neg word.ne_bang, pending]

theorem foldlM_flags (f : Field) (inverted : Bool) (before : List (Bool × Test)) (protocol : Option Protocol)
    (module : Option Module) : (f.flags inverted).foldlM (step r) (.idle before protocol module) =
      some ⟨before, protocol, f.module.or module, inverted, some f.flag, none, none⟩ := by
  cases f <;> cases inverted <;> rfl

theorem adds_entry {f : Field} {entry : Text} {test : Test} (word : IsWord entry)
    (read : f.read r entry = some test) (ports : f.isPort → protocol.isSome) (inverted : Bool) :
    Adds r protocol (f.flags inverted ++ [entry]) [(inverted, test)] := by
  intro before module
  refine ⟨f.module.or module, ?_⟩
  rw [foldlM_append, foldlM_flags]
  refine (bind_some _ _).trans ?_
  rw [foldlM_cons, step_argument rfl word]
  cases f <;> obtain ⟨v, arg, rfl⟩ := map_eq_some_iff.1 read
  case sourcePort | destinationPort =>
    simp [argument, Field.flag, Field.module, arg, add, idle, ports rfl]
  all_goals simp [argument, Field.flag, Field.module, arg, add, idle]

/-! ## Rules -/

/-- The name of the protocol behind `-p`. -/
def protocolName : Protocol → Text
  | .tcp => lit "tcp"
  | .udp => lit "udp"
  | .other _ => []

def protocolWords (protocol : Option Protocol) : List Text := protocol.elim [] fun p => [lit "-p", protocolName p]

def protocolTests (protocol : Option Protocol) : List (Bool × Test) := protocol.elim [] fun p => [(false, .protocol p)]

def Named (protocol : Option Protocol) : Prop := protocol = none ∨ protocol = some .tcp ∨ protocol = some .udp

theorem foldlM_protocolWords (named : Named protocol) : (protocolWords protocol).foldlM (step r) (.idle [] none none) =
      some (.idle (protocolTests protocol) protocol none) := by
  rcases named with rfl | rfl | rfl <;> rfl

variable {tests : List (Bool × Test)}

theorem readRule_append (named : Named protocol) {ws rest : List Text} (adds : Adds r protocol ws tests)
    {action : Action}
    (complete : ∀ before module, (rest.foldlM (step r) (.idle before protocol module)).bind rule =
      some ⟨before, action⟩) :
    readRule r (protocolWords protocol ++ ws ++ rest) = some ⟨protocolTests protocol ++ tests, action⟩ := by
  obtain ⟨module, added⟩ := adds (protocolTests protocol) none
  rw [readRule, foldlM_append, foldlM_append, foldlM_protocolWords named]
  refine Eq.trans ?_ (complete (protocolTests protocol ++ tests) module)
  exact congrArg (Option.bind · rule) (congrArg (Option.bind · _) added)

def setMarkWords (mark : Text) : List Text := [lit "-j", lit "CONNMARK", lit "--set-mark"] ++ [mark]

theorem readRule_setMark (named : Named protocol) {ws : List Text}
    (adds : Adds r protocol ws tests) {v m : ℕ} (smallV : v < 2 ^ 32) (smallM : m < 2 ^ 32) :
    readRule r (protocolWords protocol ++ ws ++ setMarkWords (hexConstant v ++ lit "/" ++ hexConstant m)) =
      some ⟨protocolTests protocol ++ tests, .setConnmark (BitVec.ofNat 32 v) (BitVec.ofNat 32 m)⟩ := by
  refine readRule_append named adds fun before module => ?_
  have start : [lit "-j", lit "CONNMARK", lit "--set-mark"].foldlM (Parser.step r) (.idle before protocol module) =
      some ⟨before, protocol, module, false, some .setMark, some (lit "CONNMARK"), none⟩ := rfl
  rw [setMarkWords, foldlM_append, start]
  refine (congrArg (Option.bind · rule) (bind_some _ _)).trans ?_
  rw [foldlM_cons, step_argument rfl (isWord_mask v m), argument, if_pos rfl, readMark_mask smallV smallM]
  rfl

def Terminal (target : Text) : Prop := target = lit "ACCEPT" ∨ target = lit "DROP"

theorem readRule_jump (named : Named protocol) {ws : List Text}
    (adds : Adds r protocol ws tests) {target : Text} (terminal : Terminal target) :
    readRule r (protocolWords protocol ++ ws ++ [lit "-j", target]) = some
      ⟨protocolTests protocol ++ tests, .jump target⟩ := by
  refine readRule_append named adds fun before module => ?_
  rcases terminal with rfl | rfl <;> rfl

end OpenWifi.FirewallUtil
