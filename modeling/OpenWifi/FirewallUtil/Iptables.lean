import OpenWifi.Lib.Text
import OpenWifi.Lib.ScratchBits

/-!
# What `iptables` commands do to a packet

A command is a text that is split into words, and the words are read as options: tests and an action.  A chain of rules
is run on a packet with the mark of its connection; `CONNMARK --set-mark` changes the mark, `ACCEPT` and `DROP` end the
run.  How addresses and ports are written is left to a `Reading`.
-/

namespace OpenWifi.FirewallUtil

open List
open Scratch (write)

abbrev Text := List Char

def lit (s : String) : Text := s.toList

/-! ## Packets and rules -/

inductive Protocol where
  | tcp
  | udp
  | other (number : ℕ)
  deriving DecidableEq

structure Packet where
  protocol : Protocol
  mark : BitVec 32
  source : BitVec 32
  destination : BitVec 32
  sourcePort : BitVec 16
  destinationPort : BitVec 16
  deriving DecidableEq

inductive Test where
  | protocol (p : Protocol)
  | mark (value mask : BitVec 32)
  | connmark (value mask : BitVec 32)
  | source (addresses : BitVec 32 → Bool)
  | destination (addresses : BitVec 32 → Bool)
  | sourcePort (ports : BitVec 16 → Bool)
  | destinationPort (ports : BitVec 16 → Bool)

variable (packet : Packet) (c : BitVec 32)

/-- The test on a packet whose connection has the mark `c`. -/
def Test.holds : Test → Bool
  | .protocol p => packet.protocol = p
  | .mark value mask => packet.mark &&& mask = value
  | .connmark value mask => c &&& mask = value
  | .source addresses => addresses packet.source
  | .destination addresses => addresses packet.destination
  | .sourcePort ports => ports packet.sourcePort
  | .destinationPort ports => ports packet.destinationPort

inductive Action where
  | setConnmark (value mask : BitVec 32)
  | jump (target : Text)

structure Rule where
  tests : List (Bool × Test)
  action : Action

def allHold (tests : List (Bool × Test)) : Bool :=
  tests.all fun t => t.2.holds packet c != t.1

def runChain (packet : Packet) : BitVec 32 → List Rule → Option Text × BitVec 32
  | c, [] => (none, c)
  | c, rule :: rules =>
    if allHold packet c rule.tests then
      match rule.action with
      | .setConnmark value mask => runChain packet (write c value mask) rules
      | .jump target => (some target, c)
    else runChain packet c rules

theorem allHold_append (a b : List (Bool × Test)) :
    allHold packet c (a ++ b) = (allHold packet c a && allHold packet c b) := all_append

theorem runChain_append {packet : Packet} {c c' : BitVec 32} {a : List Rule}
    (through : runChain packet c a = (none, c'))
    (b : List Rule) : runChain packet c (a ++ b) = runChain packet c' b := by
  induction a generalizing c with
  | nil =>
    obtain rfl := (Prod.ext_iff.1 through).2
    rfl
  | cons rule a ih =>
    rw [cons_append, runChain]
    rw [runChain] at through
    split
    case isFalse other =>
      rw [if_neg other] at through
      exact ih through
    case isTrue holds =>
      rw [if_pos holds] at through
      cases action : rule.action with
      | setConnmark value mask =>
        rw [action] at through
        exact ih through
      | jump target =>
        rw [action] at through
        exact absurd (Prod.ext_iff.1 through).1 nofun

theorem runChain_same {packet : Packet} {value mask : BitVec 32} {rules : List Rule}
    (same : ∀ rule ∈ rules, rule.action = .setConnmark value mask) (c : BitVec 32) : runChain packet c rules =
      (none, if rules.any fun rule => allHold packet c rule.tests then write c value mask else c) := by
  induction rules generalizing c with
  | nil => rfl
  | cons rule rules ih =>
    have own := same rule mem_cons_self
    have rest := ih fun rule mem => same rule (mem_cons_of_mem _ mem)
    rw [runChain, own, any_cons]
    by_cases holds : allHold packet c rule.tests
    · simp [holds, rest, Bool.true_or, Scratch.write_write, ite_self]
    · simp [holds, Bool.false_or, rest, Bool.false_eq_true]

/-! ## Reading a command -/

structure Reading where
  address : Text → Option (BitVec 32 → Bool)
  range : Text → Option (BitVec 32 → Bool)
  port : Text → Option (BitVec 16 → Bool)

def readWord (text : Text) : Option (BitVec 32) :=
  (constant text).bind fun n => if n < 2 ^ 32 then some (BitVec.ofNat 32 n) else none

def readMark (text : Text) : Option (BitVec 32 × BitVec 32) :=
  match text.dropWhile (· ≠ '/') with
  | [] => (readWord text).map (·, BitVec.allOnes 32)
  | _ :: mask => (readWord (text.takeWhile (· ≠ '/'))).bind fun value => (readWord mask).map (value, ·)

/-- The protocols of `-p`. -/
def protocolOf (w : Text) : Option Protocol := [(lit "tcp", .tcp), (lit "udp", .udp)].lookup w

/-- The modules of `-m`. -/
inductive Module where
  | mark
  | connmark
  | iprange
  deriving DecidableEq

def moduleOf (w : Text) : Option Module :=
  [(lit "mark", .mark), (lit "connmark", .connmark), (lit "iprange", .iprange)].lookup w

inductive Flag where
  | protocol
  | module
  | source
  | destination
  | mark
  | sourceRange
  | destinationRange
  | sourcePort
  | destinationPort
  | jump
  | setMark
  deriving DecidableEq

def flagOf (w : Text) : Option Flag :=
  [(lit "-p", .protocol), (lit "-m", .module), (lit "-s", .source), (lit "-d", .destination),
    (lit "--mark", .mark), (lit "--src-range", .sourceRange), (lit "--dst-range", .destinationRange),
    (lit "--sport", .sourcePort), (lit "--dport", .destinationPort), (lit "-j", .jump),
    (lit "--set-mark", .setMark)].lookup w

structure Parser where
  tests : List (Bool × Test)
  protocol : Option Protocol
  module : Option Module
  inverted : Bool
  pending : Option Flag
  target : Option Text
  setMark : Option (BitVec 32 × BitVec 32)

namespace Parser

def idle (tests : List (Bool × Test)) (protocol : Option Protocol) (module : Option Module) : Parser :=
  ⟨tests, protocol, module, false, none, none, none⟩

/-- A test, inverted when a `!` stands before it. -/
def add (st : Parser) (t : Test) : Parser := { st with tests := st.tests ++ [(st.inverted, t)], inverted := false }

def argument (r : Reading) (st : Parser) (w : Text) : Flag → Option Parser
  | .protocol => (protocolOf w).map fun p => { st.add (.protocol p) with protocol := some p }
  | .module => if st.inverted then none else (moduleOf w).map fun m => { st with module := some m }
  | .source => (r.address w).map fun set => st.add (.source set)
  | .destination => (r.address w).map fun set => st.add (.destination set)
  | .mark =>
    match st.module with
    | some .mark => (readMark w).map fun v => st.add (.mark v.1 v.2)
    | some .connmark => (readMark w).map fun v => st.add (.connmark v.1 v.2)
    | _ => none
  | .sourceRange => if st.module = some .iprange then (r.range w).map fun set => st.add (.source set) else none
  | .destinationRange => if st.module = some .iprange then (r.range w).map fun set =>
    st.add (.destination set) else none
  | .sourcePort => if st.protocol.isSome then (r.port w).map fun set => st.add (.sourcePort set) else none
  | .destinationPort => if st.protocol.isSome then (r.port w).map fun set => st.add (.destinationPort set) else none
  | .jump => if st.inverted then none else some { st with target := some w }
  | .setMark => if st.target = some (lit "CONNMARK") then (readMark w).map fun v =>
    { st with setMark := some v } else none

def step (r : Reading) (st : Parser) (w : Text) : Option Parser :=
  if w = lit "!" then some { st with inverted := true }
  else
    match st.pending with
    | none => (flagOf w).map fun flag => { st with pending := some flag }
    | some flag => { st with pending := none }.argument r w flag

def rule (st : Parser) : Option Rule :=
  if st.pending.isSome || st.inverted then none
  else
    match st.target, st.setMark with
    | some target, none => if target = lit "ACCEPT" ∨ target = lit "DROP" then some ⟨st.tests, .jump target⟩ else none
    | some _, some (value, mask) => some ⟨st.tests, .setConnmark value mask⟩
    | none, _ => none

end Parser

def readRule (r : Reading) (args : List Text) : Option Rule :=
  (args.foldlM (Parser.step r) (.idle [] none none)).bind Parser.rule

def readCommand (r : Reading) (table chain : Text) (command : Text) : Option Rule :=
  match words isSpace command with
  | iptables :: t :: table' :: a :: chain' :: args =>
    if iptables = lit "iptables" ∧ t = lit "-t" ∧ table' = table ∧ a = lit "-A" ∧ chain' = chain then
      readRule r args
    else none
  | _ => none

end OpenWifi.FirewallUtil
