import OpenWifi.OpenCapwap.Transport
import OpenWifi.Lib.Fuel
import OpenWifi.Lib.Tiling

/-!
# The fragments of opencapwap

`CWAssembleMessage` cuts a control message into fragments, and `CWProtocolParseFragment` (`CWProtocol.c`) collects them
and puts the message together when they have as many bytes.
-/

namespace OpenWifi.OpenCapwap

open List

/-! ## Control messages -/

/-- `CWAssembleControlHeader`. -/
def assembleControlHeader (messageTypeValue seqNum msgElemsLen : ℕ) : List UInt8 :=
  be32 messageTypeValue ++ [UInt8.ofNat seqNum] ++ be16 (3 + msgElemsLen) ++ [0]

/-- What `CWAssembleMessage` is called with; `fragmentID` is what `CWGetFragmentID` gives, and `type` is only set for a
message in one piece. -/
structure ControlMessage where
  radioMac : RadioMac
  fragmentID : ℕ
  type : ℕ
  seqNum : ℕ
  msgTypeValue : ℕ
  msgElems : List (List UInt8)
  msgElemsBinding : List (List UInt8)
  isCrypted : ℕ

namespace ControlMessage

def body (m : ControlMessage) : List UInt8 :=
  assembleControlHeader m.msgTypeValue m.seqNum (m.msgElems.flatten ++ m.msgElemsBinding.flatten).length ++
    m.msgElems.flatten ++ m.msgElemsBinding.flatten

end ControlMessage

def alignedPMTU (PMTU : ℤ) : ℕ := (PMTU - 25 - 8).toNat / 8 * 8

def fragmentsNum (PMTU : ℤ) (size : ℕ) : ℕ :=
  if alignedPMTU PMTU = 0 then 1
  else size / alignedPMTU PMTU + if size % alignedPMTU PMTU ≠ 0 then 1 else 0

namespace ControlMessage

variable (m : ControlMessage)

def fragmentValues (offset : ℕ) (last : Bool) : HeaderValues where
  payloadType := m.isCrypted
  type := m.type
  isFragment := 1
  last := if last then 1 else 0
  fragmentID := m.fragmentID
  fragmentOffset := offset / 8
  keepAlive := 0
  bindingValues := none

/-- The loop over the fragments, of which there are `count` left to write from the offset on. -/
def assembleFragments (m : ControlMessage) (PMTU num : ℕ) : ℕ → ℕ → List (List UInt8)
  | 0, _ => []
  | count + 1, offset =>
    let last := count = 0
    let fragSize := if last then m.body.length - (num - 1) * PMTU else PMTU
    (assembleTransportHeader m.radioMac (m.fragmentValues offset last) ++ (m.body.drop offset).take fragSize) ::
      m.assembleFragments PMTU num count (offset + fragSize)

def wholeValues : HeaderValues where
  payloadType := m.isCrypted
  type := 0
  isFragment := 0
  last := 0
  fragmentID := 0
  fragmentOffset := 0
  keepAlive := 0
  bindingValues := none

/-- `CWAssembleMessage`: the packets. -/
def assembleMessage (PMTU : ℤ) : List (List UInt8) :=
  if fragmentsNum PMTU m.body.length = 1 then [assembleTransportHeader m.radioMac m.wholeValues ++ m.body]
  else
    m.assembleFragments (alignedPMTU PMTU) (fragmentsNum PMTU m.body.length) (fragmentsNum PMTU m.body.length) 0

end ControlMessage

/-! ## Collecting fragments -/

/-- `CWProtocolFragment`. -/
structure Fragment where
  fragmentID : ℕ
  fragmentOffset : ℕ
  last : ℕ
  data : List UInt8
  deriving DecidableEq

/-- `CWCompareFragment`. -/
def compareFragment (new old : Fragment) : Bool :=
  new.fragmentID = old.fragmentID ∧ new.fragmentOffset = old.fragmentOffset

/-- The fragment is put in front of the list, or it is the first of a new list; `none` for a copy. -/
def collect (fragments : List Fragment) (new : Fragment) : Option (List Fragment) :=
  match fragments with
  | [] => some [new]
  | first :: _ =>
    if first.fragmentID = new.fragmentID then
      if fragments.any (compareFragment new) then none else some (new :: fragments)
    else some [new]

def totalSize (fragments : List Fragment) : ℕ :=
  fragments.foldl (fun total f => if f.last = 1 then f.fragmentOffset * 8 + f.data.length else total) 0

def currentSize (fragments : List Fragment) : ℕ := (fragments.map (·.data.length)).sum

/-- How the loop ends: `overflow` when it writes behind the end of the message that it has allocated. -/
inductive Reassembled
  | message (msg : List UInt8)
  | badFragmentedMessage
  | overflow
  deriving DecidableEq

/-- The loop that puts the message together, in a buffer of `size` bytes. -/
def reassembleLoop (fragments : List Fragment) (size : ℕ) : ℕ → ℕ → List UInt8 → Option Reassembled
  | 0, _, _ => none
  | fuel + 1, currentOffset, stored =>
    match fragments.find? (·.fragmentOffset = currentOffset) with
    | none => some .badFragmentedMessage
    | some f =>
      if size < stored.length + f.data.length then some .overflow
      else if f.last = 1 then some (.message (stored ++ f.data))
      else reassembleLoop fragments size fuel (currentOffset + f.data.length / 8) (stored ++ f.data)

def finish (fragments : List Fragment) : Reassembled → Except CWError (List UInt8) × List Fragment
  | .message msg => (.ok msg, [])
  | .badFragmentedMessage => (.error (.invalidFormat "Bad Fragmented Messsage"), [])
  | .overflow => (.error .outside, fragments)

def Complete (fragments : List Fragment) : Prop := totalSize fragments ≠ 0 ∧ currentSize fragments = totalSize fragments
  deriving Decidable

/-- The part of `CWProtocolParseFragment` for a fragment. -/
def parseNewFragment (fragments : List Fragment) (new : Fragment) (fuel : ℕ) :
    Option (Except CWError (List UInt8) × List Fragment) :=
  match collect fragments new with
  | none => some (.error .needResource, fragments)
  | some fragments =>
    if Complete fragments then
      (reassembleLoop fragments (totalSize fragments) fuel 0 []).map (finish fragments)
    else some (.error .needResource, fragments)

/-- `CWProtocolParseFragment`; `none` when the loop needs more fuel. -/
def protocolParseFragment (dataFlag copies : Bool) (buf : List UInt8) (fragments : List Fragment) (fuel : ℕ) :
    Option (Except CWError (List UInt8) × List Fragment) :=
  match parseTransportHeader dataFlag copies buf with
  | .error e => some (.error e, fragments)
  | .ok (parsed, rest) =>
    if parsed.values.isFragment = 0 then some (.ok rest, fragments)
    else
      parseNewFragment fragments
        ⟨parsed.values.fragmentID, parsed.values.fragmentOffset, parsed.values.last, rest⟩ fuel

/-! ## The loop -/

variable {fragments : List Fragment} {size fuel offset : ℕ} {stored : List UInt8} {f : Fragment}

theorem finish_injective : Function.Injective (finish fragments) := by
  intro a b same
  cases a <;> cases b <;> simp_all [finish]

def DistinctOffsets (fragments : List Fragment) : Prop := (fragments.map Fragment.fragmentOffset).Nodup

theorem DistinctOffsets.find (distinct : DistinctOffsets fragments) (mem : f ∈ fragments) :
    fragments.find? (·.fragmentOffset = f.fragmentOffset) = some f := by
  rcases found : fragments.find? (·.fragmentOffset = f.fragmentOffset) with - | g
  · exact absurd (by simp) (find?_eq_none.1 found f mem)
  · have same : g.fragmentOffset = f.fragmentOffset := by simpa using find?_some found
    obtain rfl := inj_on_of_nodup_map distinct (mem_of_find?_eq_some found) mem same
    exact found

theorem reassembleLoop_at (distinct : DistinctOffsets fragments) (mem : f ∈ fragments) (size fuel : ℕ)
    (stored : List UInt8) : reassembleLoop fragments size (fuel + 1) f.fragmentOffset stored =
      if size < stored.length + f.data.length then some .overflow
      else if f.last = 1 then some (.message (stored ++ f.data))
      else reassembleLoop fragments size fuel (f.fragmentOffset + f.data.length / 8) (stored ++ f.data) := by
  rw [reassembleLoop, distinct.find mem]

structure OneMessage (fragmentID : ℕ) (fragments : List Fragment) : Prop where
  same : ∀ f ∈ fragments, f.fragmentID = fragmentID
  distinct : DistinctOffsets fragments

theorem oneMessage_nil (fragmentID : ℕ) : OneMessage fragmentID [] := ⟨nofun, nodup_nil⟩

section

variable {fragmentID : ℕ} (h : OneMessage fragmentID fragments) (own : f.fragmentID = fragmentID)
include h own

theorem OneMessage.collect_cases :
    collect fragments f = none ∧ f.fragmentOffset ∈ fragments.map Fragment.fragmentOffset ∨
      collect fragments f = some (f :: fragments) ∧ f.fragmentOffset ∉ fragments.map Fragment.fragmentOffset := by
  have copies : fragments.any (compareFragment f) ↔ f.fragmentOffset ∈ fragments.map Fragment.fragmentOffset := by
    simp only [any_eq_true, mem_map, compareFragment, decide_eq_true_eq]
    constructor
    · rintro ⟨g, mem, -, same⟩
      exact ⟨g, mem, same.symm⟩
    · rintro ⟨g, mem, same⟩
      exact ⟨g, mem, own.trans (h.same g mem).symm, same.symm⟩
  cases fragments with
  | nil => exact .inr ⟨rfl, by simp⟩
  | cons first rest =>
    have first_own : first.fragmentID = f.fragmentID := (h.same first (by simp)).trans own.symm
    simp only [collect, if_pos first_own]
    by_cases copy : f.fragmentOffset ∈ (first :: rest).map Fragment.fragmentOffset
    · exact .inl ⟨if_pos (copies.2 copy), copy⟩
    · exact .inr ⟨if_neg (mt copies.1 copy), copy⟩

theorem OneMessage.cons (new : f.fragmentOffset ∉ fragments.map Fragment.fragmentOffset) :
    OneMessage fragmentID (f :: fragments) where
  same := by
    intro g mem
    rcases mem_cons.1 mem with rfl | mem
    · exact own
    · exact h.same g mem
  distinct := nodup_cons.2 ⟨new, h.distinct⟩

end

end OpenWifi.OpenCapwap
