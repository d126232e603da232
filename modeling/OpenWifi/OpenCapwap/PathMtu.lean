import OpenWifi.OpenCapwap.FragmentRoundTrip

/-!
# Packets and the path MTU

`CWAssembleMessage` and `CWAssembleDataMessage` (`CWBinding.c`) compute the room for the body from a
  constant size of the
header, and the header may have a radio MAC address that is not counted.
-/

namespace OpenWifi.OpenCapwap

open List

/-- What `CWAssembleDataMessage` is called with; `isIeee80211` when `data_msgType` is `CW_IEEE_802_11_FRAME_TYPE`. -/
structure DataMessage where
  radioMac : RadioMac
  fragmentID : ℕ
  frame : List UInt8
  isIeee80211 : Bool
  bindingValues : Option BindingValues
  isCrypted : ℕ
  keepAlive : ℕ

def keepAliveFields (values : HeaderValues) (keepAlive : ℕ) : List BitField :=
  [⟨0, 4, protocolVersion⟩, ⟨4, 4, if values.payloadType = packetPlain then 0 else 1⟩, ⟨8, 5, 2⟩,
    ⟨13, 5, 0⟩, ⟨18, 5, 1⟩,
   ⟨23, 1, 0⟩, ⟨24, 1, values.isFragment⟩, ⟨25, 1, values.last⟩, ⟨26, 1, 0⟩, ⟨27, 1, 0⟩, ⟨28, 1, keepAlive⟩, ⟨29, 3, 0⟩]

/-- `CWAssembleTransportHeaderKeepAliveData`. -/
def assembleTransportHeaderKeepAliveData (values : HeaderValues) (keepAlive : ℕ) : List UInt8 :=
  be32 (setFields32 (keepAliveFields values keepAlive)) ++ be32 (setFields32 (secondFields values))

/-- The loop over the fragments, of which there are `count` left to write from the offset on. -/
def writeFragments (header : ℕ → Bool → List UInt8) (msg : List UInt8) (PMTU num : ℕ) : ℕ → ℕ → List (List UInt8)
  | 0, _ => []
  | count + 1, offset =>
    let last := count = 0
    let fragSize := if last then msg.length - (num - 1) * PMTU else PMTU
    (header offset last ++ (msg.drop offset).take fragSize) ::
      writeFragments header msg PMTU num count (offset + fragSize)

def alignedDataPMTU (PMTU : ℤ) : ℕ := (PMTU - 16).toNat / 8 * 8

def dataFragmentsNum (PMTU : ℤ) (size : ℕ) : ℕ :=
  if alignedDataPMTU PMTU = 0 then 1
  else size / alignedDataPMTU PMTU + if size % alignedDataPMTU PMTU ≠ 0 then 1 else 0

namespace DataMessage

variable (d : DataMessage)

def values (isFragment last fragmentID fragmentOffset : ℕ) : HeaderValues where
  payloadType := d.isCrypted
  type := if d.isIeee80211 then 1 else 0
  isFragment := isFragment
  last := last
  fragmentID := fragmentID
  fragmentOffset := fragmentOffset
  keepAlive := 0
  bindingValues := d.bindingValues

def header (values : HeaderValues) : List UInt8 :=
  if d.keepAlive ≠ 0 then assembleTransportHeaderKeepAliveData values d.keepAlive
  else assembleTransportHeader d.radioMac values

/-- `CWAssembleDataMessage`: the packets. -/
def assembleDataMessage (PMTU : ℤ) : List (List UInt8) :=
  let num := dataFragmentsNum PMTU d.frame.length
  if num = 1 then [d.header (d.values 0 0 0 0) ++ (if d.keepAlive ≠ 0 then be16 22 else []) ++ d.frame]
  else
    writeFragments (fun offset last => d.header (d.values 1 (if last then 1 else 0) d.fragmentID (offset / 8)))
      d.frame (alignedDataPMTU PMTU) num num 0

end DataMessage

theorem length_assembleTransportHeader (mac : RadioMac) (values : HeaderValues) :
    (assembleTransportHeader mac values).length =
      8 + (if mac.present then 8 else 0) + if values.bindingValues.isSome then 8 else 0 := by
  cases present : mac.present <;> cases bound : values.bindingValues <;>
    simp [assembleTransportHeader, macBlock, assembleTransportHeaderBinding, *]

theorem ControlMessage.assembleFragments_eq_write (m : ControlMessage) (PMTU num count offset : ℕ) :
    m.assembleFragments PMTU num count offset =
      writeFragments (fun offset last => assembleTransportHeader m.radioMac (m.fragmentValues offset last))
        m.body PMTU num
        count offset := by
  induction count generalizing offset with
  | zero => rfl
  | succ count ih => rw [assembleFragments, writeFragments, ih]

section Write

variable {header : ℕ → Bool → List UInt8} {msg : List UInt8} {PMTU : ℤ} {width num : ℕ}

theorem length_writeFragments_le (widths : ∀ offset last, (header offset last).length = width) {size : ℕ}
    (enough : msg.length - (num - 1) * size ≤ size) (count offset : ℕ) :
    ∀ p ∈ writeFragments header msg size num count offset, p.length ≤ width + size := by
  induction count generalizing offset with
  | zero => nofun
  | succ count ih =>
    intro p mem
    rw [writeFragments, mem_cons] at mem
    rcases mem with rfl | mem
    · rw [length_append, widths, length_take]
      split <;> omega
    · exact ih _ p mem

theorem writeFragments_fit_iff (widths : ∀ offset last, (header offset last).length = width) (content : 0 < msg.length)
    (several : fragmentsNum PMTU msg.length ≠ 1) (limit : ℤ) :
    (∀ p ∈ writeFragments header msg (alignedPMTU PMTU) (fragmentsNum PMTU msg.length) (fragmentsNum PMTU msg.length) 0,
        (p.length : ℤ) ≤ limit) ↔ (width + alignedPMTU PMTU : ℤ) ≤ limit := by
  obtain ⟨some, enough, notMore⟩ := fragmentsNum_bounds content (alignedPMTU_pos several)
  obtain ⟨count, num⟩ : ∃ count, fragmentsNum PMTU msg.length = count + 2 := ⟨_, (Nat.sub_add_cancel (by omega)).symm⟩
  simp only [num, Nat.add_mul, Nat.reduceSubDiff] at *
  constructor
  · intro fits
    have full := fits _ (mem_cons_self ..)
    rw [length_append, widths, length_take, drop_zero, if_neg (by omega)] at full
    omega
  · intro room p mem
    have last : msg.length - (count + 2 - 1) * alignedPMTU PMTU ≤ alignedPMTU PMTU := by
      rw [Nat.add_sub_assoc (by decide), Nat.add_mul]
      omega
    have := length_writeFragments_le widths last _ _ p mem
    omega

theorem alignedPMTU_spec (room : 41 ≤ PMTU) :
    0 < alignedPMTU PMTU ∧ (alignedPMTU PMTU : ℤ) ≤ PMTU - 33 ∧ PMTU - 41 < alignedPMTU PMTU := by
  unfold alignedPMTU
  omega

theorem fragmentsNum_eq_one_iff {size : ℕ} (content : 0 < size) (room : 41 ≤ PMTU) :
    fragmentsNum PMTU size = 1 ↔ size ≤ alignedPMTU PMTU := by
  obtain ⟨some, enough, notMore⟩ := fragmentsNum_bounds content (alignedPMTU_spec room).1
  constructor
  · intro one
    rwa [one, Nat.one_mul] at enough
  · intro small
    by_contra several
    have : 1 * alignedPMTU PMTU ≤ (fragmentsNum PMTU size - 1) * alignedPMTU PMTU := Nat.mul_le_mul_right _ (by omega)
    omega

theorem alignedDataPMTU_eq (PMTU : ℤ) : alignedDataPMTU PMTU = alignedPMTU (PMTU + 17) := by
  rw [alignedDataPMTU, alignedPMTU, show PMTU + 17 - 25 - 8 = PMTU - 16 by omega]

theorem dataFragmentsNum_eq (PMTU : ℤ) (size : ℕ) : dataFragmentsNum PMTU size = fragmentsNum (PMTU + 17) size := by
  rw [dataFragmentsNum, fragmentsNum, alignedDataPMTU_eq]

end Write

variable {m : ControlMessage} {d : DataMessage} {PMTU PMTU' : ℤ}

theorem ControlMessage.assembleMessage_fit_iff (m : ControlMessage) (room : 41 ≤ PMTU) :
    (∀ p ∈ m.assembleMessage PMTU, (p.length : ℤ) ≤ PMTU - 25) ↔
      (m.radioMac.present = true → (m.body.length : ℤ) + 41 ≤ PMTU) := by
  have content := m.length_body_pos
  obtain ⟨-, lower, upper⟩ := alignedPMTU_spec room
  have one := fragmentsNum_eq_one_iff content room
  unfold assembleMessage
  split
  next whole =>
    have small := one.1 whole
    rw [forall_mem_singleton, length_append, length_assembleTransportHeader]
    cases m.radioMac.present <;> simp [wholeValues] <;> omega
  next several =>
    have large := mt one.2 several
    have width (offset : ℕ) (last : Bool) := length_assembleTransportHeader m.radioMac (m.fragmentValues offset last)
    rw [assembleFragments_eq_write, writeFragments_fit_iff width content several]
    cases m.radioMac.present <;> simp <;> omega

theorem DataMessage.length_header (d : DataMessage) (isFragment last fragmentID fragmentOffset : ℕ) :
    (d.header (d.values isFragment last fragmentID fragmentOffset)).length = if d.keepAlive ≠ 0 then 8
      else 8 + (if d.radioMac.present then 8 else 0) + if d.bindingValues.isSome then 8 else 0 := by
  unfold header
  split
  · rfl
  · exact length_assembleTransportHeader ..

theorem DataMessage.assembleDataMessage_fit_iff (d : DataMessage) (room : 24 ≤ PMTU) :
    (∀ p ∈ d.assembleDataMessage PMTU, (p.length : ℤ) ≤ PMTU) ↔
      (d.keepAlive = 0 → d.radioMac.present = true → d.bindingValues.isSome = true →
        (d.frame.length : ℤ) + 24 ≤ PMTU) := by
  obtain ⟨positive, lower, upper⟩ := alignedPMTU_spec (show 41 ≤ PMTU + 17 by omega)
  rw [assembleDataMessage, alignedDataPMTU_eq, dataFragmentsNum_eq]
  rcases Nat.eq_zero_or_pos d.frame.length with empty | content
  · have none : fragmentsNum (PMTU + 17) 0 = 0 := by simp [fragmentsNum, positive.ne']
    simp [empty, none, writeFragments, room]
  have one := fragmentsNum_eq_one_iff content (show 41 ≤ PMTU + 17 by omega)
  split
  next whole =>
    have small := one.1 whole
    rw [forall_mem_singleton, length_append, length_append, length_header]
    by_cases keepAlive : d.keepAlive = 0 <;> cases d.radioMac.present <;> cases d.bindingValues.isSome <;>
      simp [keepAlive] <;> omega
  next several =>
    have large := mt one.2 several
    rw [writeFragments_fit_iff (fun _ _ => length_header ..) content several]
    by_cases keepAlive : d.keepAlive = 0 <;> cases d.radioMac.present <;> cases d.bindingValues.isSome <;>
      simp [keepAlive] <;> omega

/-- A control packet is too long if there is a radio MAC address that does not fit, a data packet if there are binding
values too. -/
theorem packets_fit_iff (m : ControlMessage) (d : DataMessage) (room : 41 ≤ PMTU) (room' : 24 ≤ PMTU') :
    ((∀ p ∈ m.assembleMessage PMTU, (p.length : ℤ) ≤ PMTU - 25) ∧
        ∀ p ∈ d.assembleDataMessage PMTU', (p.length : ℤ) ≤ PMTU') ↔
      (m.radioMac.present = true → (m.body.length : ℤ) + 41 ≤ PMTU) ∧
        (d.keepAlive = 0 → d.radioMac.present = true → d.bindingValues.isSome = true →
          (d.frame.length : ℤ) + 24 ≤ PMTU') := by
  rw [m.assembleMessage_fit_iff room, d.assembleDataMessage_fit_iff room']

def radioMacOne : RadioMac := ⟨[0, 0, 0, 0, 0, 1], rfl⟩

def smallFrame : DataMessage := ⟨radioMacOne, 1, List.replicate 20 7, true, some ⟨1, 1, 1⟩, 0, 0⟩

theorem packets_fit_iff_plain : (∀ p ∈ smallMessage.assembleMessage 41, (p.length : ℤ) ≤ 41 - 25) ∧
      ∀ p ∈ smallFrame.assembleDataMessage 44, (p.length : ℤ) ≤ 44 :=
  (packets_fit_iff _ _ (by decide) (by decide)).2 ⟨by decide, by decide⟩

/-- The first fragment of a control message and a data packet in one piece. -/
theorem packets_too_long :
    (∃ p ∈ ({ smallMessage with radioMac := radioMacOne }).assembleMessage 49, ¬ (p.length : ℤ) ≤ 49 - 25) ∧
      ∃ p ∈ smallFrame.assembleDataMessage 40, ¬ (p.length : ℤ) ≤ 40 := by
  decide +kernel

end OpenWifi.OpenCapwap
