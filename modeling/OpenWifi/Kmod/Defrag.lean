import OpenWifi.CapwapProtocol.Header

/-!
# Reassembly in the kernel module

`sc_capwap_defrag` and `sc_capwap_reasm` of `kmod/capwap.c`.  A session has sixteen slots for packets in pieces; the
fragment id modulo sixteen selects the slot.  Time stamps do not enter here: `sc_capwap_defrag` does not evict.
-/

namespace OpenWifi.Kmod

open CapwapProtocol

/-- `CAPWAP_FRAGMENT_QUEUE`. -/
def fragmentQueue : ℕ := 16

/-! ## Packets -/

/-- A packet of the data channel, whose header `sc_capwap_parsingpacket` has checked. -/
structure Skb where
  data : List UInt8
  header_le : headerSize ≤ data.length
  length_lt : data.length < 65536
  deriving DecidableEq

namespace Skb

variable (skb : Skb)

def headersize : ℕ := getHlen skb.data * 4

def fragId : ℕ := readBe16 skb.data 4

/-- `frag_offset`; the offset is read as it is, without a mask. -/
def fragOffset : ℕ := readBe16 skb.data 6

/-- `frag_length`. -/
def fragLength : ℕ := skb.data.length - skb.headersize

def isLast : Bool := isFlag .l skb.data

def body : List UInt8 := skb.data.drop skb.headersize

@[simp] theorem length_body : skb.body.length = skb.fragLength := by
  simp [body, fragLength]

def fragEnd : ℕ := skb.fragOffset + skb.fragLength

end Skb

/-- The header of the reassembled packet: the flags `F` and `L` and the fragment id and offset are
zero. -/
def clearFragment (header : List UInt8) : List UInt8 :=
  ((((setFlag .l (setFlag .f header false) false).set 4 0).set 5 0).set 6 0).set 7 0

/-! ## Slots -/

/-- `struct sc_capwap_fragment`; `enable` and `last` are its flags. -/
structure Fragment where
  enable : Bool
  last : Bool
  fragmentid : ℕ
  fragments : List Skb
  lastfragment : Option Skb
  recvlength : ℕ
  totallength : ℕ

/-- What the search for the place of a fragment comes to: the list with the fragment in it, and whether
it is the last one there. -/
inductive Place
  | duplicate
  | overlap
  | placed (fragments : List Skb) (atEnd : Bool)

def Place.cons (prev : Skb) : Place → Place
  | placed fragments atEnd => placed (prev :: fragments) atEnd
  | place => place

/-- The loop that searches from the first fragment on.  The fragment is not compared with the one before its place. -/
def search (skb : Skb) : List Skb → Place
  | [] => .placed [skb] true
  | next :: rest =>
    if next.fragOffset = skb.fragOffset then .duplicate
    else if skb.fragOffset < next.fragOffset then
      if skb.fragEnd ≤ next.fragOffset then .placed (skb :: next :: rest) false else .overlap
    else (search skb rest).cons next

namespace Fragment

def init (fragmentid : ℕ) : Fragment where
  enable := true
  last := false
  fragmentid := fragmentid
  fragments := []
  lastfragment := none
  recvlength := 0
  totallength := 0

variable (fragment : Fragment)

/-- `sc_capwap_fragment_free`. -/
def free : Fragment :=
  { fragment with enable := false, last := false, fragments := [] }

variable (skb : Skb)

def position : Place :=
  match fragment.lastfragment with
  | none => .placed [skb] true
  | some prev =>
    if prev.fragOffset < skb.fragOffset then
      if prev.fragEnd ≤ skb.fragOffset then .placed (fragment.fragments ++ [skb]) true else .overlap
    else search skb fragment.fragments

def insert (fragments : List Skb) (atEnd : Bool) : Fragment :=
  { fragment with
    fragments := fragments
    lastfragment := if atEnd then some skb else fragment.lastfragment
    recvlength := fragment.recvlength + skb.fragLength
    totallength := if skb.isLast then skb.fragEnd else fragment.totallength
    last := fragment.last || skb.isLast }

/-- `sc_capwap_reasm`. -/
def reasm : List UInt8 :=
  match fragment.fragments with
  | [] => []
  | first :: rest => clearFragment (first.data.take first.headersize) ++ (first :: rest).flatMap Skb.body

def Complete : Prop :=
  fragment.last = true ∧ fragment.recvlength = fragment.totallength

instance (fragment : Fragment) : Decidable fragment.Complete :=
  inferInstanceAs (Decidable (_ ∧ _))

def opened : Fragment :=
  if fragment.enable then fragment else init skb.fragId

/-- The slot with the fragment in its place; `none` when the fragment is dropped. -/
def inserted : Option Fragment :=
  match (fragment.opened skb).position skb with
  | .placed fragments atEnd => some ((fragment.opened skb).insert skb fragments atEnd)
  | _ => none

/-- `sc_capwap_defrag`, from the slot on: the reassembled packet, and the slot. -/
def receive : Option (List UInt8) × Fragment :=
  if fragment.enable ∧ fragment.fragmentid ≠ skb.fragId then (none, fragment)
  else
    match (fragment.opened skb).position skb with
    | .duplicate => (none, fragment.opened skb)
    | .overlap => (none, (fragment.opened skb).free)
    | .placed fragments atEnd =>
      let fragment := (fragment.opened skb).insert skb fragments atEnd
      if fragment.Complete then (some fragment.reasm, fragment.free) else (none, fragment)

end Fragment

abbrev Queues := ℕ → Fragment

def slot (skb : Skb) : ℕ := skb.fragId % fragmentQueue

variable (queues : Queues)

/-- `sc_capwap_defrag`. -/
def defrag (skb : Skb) : Option (List UInt8) × Queues :=
  if skb.data.length < skb.headersize then (none, queues)
  else
    let received := (queues (slot skb)).receive skb
    (received.1, Function.update queues (slot skb) received.2)

/-- A packet is handed to `sc_capwap_defrag`. -/
def deliver (skb : Skb) : Option Queues := some (defrag queues skb).2

def delivered (skbs : List Skb) : Queues :=
  skbs.foldl (fun queues skb => (defrag queues skb).2) queues

end OpenWifi.Kmod
