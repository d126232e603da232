import OpenWifi.CapwapProtocol.Header
import OpenWifi.Lib.Steps

/-!
# Optional blocks of the header

`capwap_header_set_radio_macaddress` and `capwap_header_set_wireless_information` keep two blocks behind the fixed part
of the header, each a length, the data and a padding to words.
-/

namespace OpenWifi.CapwapProtocol

open List

/-- The fields of a header that its blocks depend on, and `headerbuffer` behind its fixed part. -/
structure BlockHeader where
  hlen : ℕ
  flagM : Bool
  flagW : Bool
  area : List UInt8

def paddedWords (length : ℕ) : ℕ := (1 + length + 3) / 4

def padBlock (data : List UInt8) : List UInt8 :=
  UInt8.ofNat data.length :: (data ++ List.replicate (paddedWords data.length * 4 - 1 - data.length) 0)

namespace BlockHeader

/-- `capwap_header_init`; what is behind the fixed part is not set. -/
def init (junk : List UInt8) : BlockHeader := ⟨2, false, false, junk⟩

variable (h : BlockHeader)

def radioWords : ℕ := if h.flagM then paddedWords (byteAt h.area 0) else 0

/-- The position for `GET_WIRELESS_INFORMATION_STRUCT`. -/
def wirelessPos : ℕ := h.radioWords * 4

def wirelessWords : ℕ := paddedWords (byteAt h.area h.wirelessPos)

def moveWireless (pos : ℕ) : List UInt8 :=
  writeAt h.area pos ((h.area.drop h.wirelessPos).take (h.wirelessWords * 4))

/-- `capwap_header_set_radio_macaddress` without an address. -/
def removeRadio : BlockHeader :=
  if h.flagM = false then h
  else if h.flagW = false then { h with hlen := 2, flagM := false }
  else { h with hlen := (2 + h.wirelessWords) % 32, flagM := false, area := h.moveWireless 0 }

/-- The last part of `capwap_header_set_radio_macaddress`.  The wireless information is moved by as many bytes as the
address has words. -/
def addRadio (mac : List UInt8) : BlockHeader :=
  let radiosizepadded := paddedWords mac.length
  let size := 2 + radiosizepadded + if h.flagW then h.wirelessWords else 0
  let area := if h.flagW then h.moveWireless radiosizepadded else h.area
  { h with hlen := size % 32, flagM := true, area := writeAt area 0 (padBlock mac) }

/-- `capwap_header_set_radio_macaddress`. -/
def setRadioMacaddress (mac : List UInt8) : BlockHeader :=
  if mac = [] then h.removeRadio
  else if h.flagM ∧ byteAt h.area 0 = mac.length then { h with area := writeAt h.area 1 mac }
  else h.removeRadio.addRadio mac

/-- The first part of `capwap_header_set_wireless_information`. -/
def clearWireless : BlockHeader :=
  if h.flagW then { h with hlen := (2 + h.radioWords) % 32, flagW := false } else h

/-- `capwap_header_set_wireless_information`. -/
def setWirelessInformation (data : List UInt8) : BlockHeader :=
  let h := h.clearWireless
  if data = [] then h
  else { h with hlen := (2 + h.radioWords + paddedWords data.length) % 32, flagW := true
                area := writeAt h.area h.wirelessPos (padBlock data) }

end BlockHeader

structure Blocks where
  radio : List UInt8
  wireless : List UInt8

inductive BlockEvent
  | radio (mac : List UInt8)
  | wireless (data : List UInt8)

def Blocks.after (b : Blocks) : BlockEvent → Blocks
  | .radio mac => ⟨mac, b.wireless⟩
  | .wireless data => ⟨b.radio, data⟩

def optionalBlock (data : List UInt8) : List UInt8 := if data = [] then [] else padBlock data

def blockWords (data : List UInt8) : ℕ := if data = [] then 0 else paddedWords data.length

def Blocks.Fit (b : Blocks) : Prop :=
  b.radio.length ∈ [0, 6, 8] ∧ b.wireless.length < 256 ∧ 2 + blockWords b.radio + blockWords b.wireless < 32

structure BlockHeader.Shows (h : BlockHeader) (b : Blocks) : Prop where
  flagM : h.flagM = decide (b.radio ≠ [])
  flagW : h.flagW = decide (b.wireless ≠ [])
  hlen : h.hlen = 2 + blockWords b.radio + blockWords b.wireless
  area : ∃ rest, h.area = optionalBlock b.radio ++ (optionalBlock b.wireless ++ rest)
  room : h.area.length = 268

theorem length_padBlock (data : List UInt8) : (padBlock data).length = paddedWords data.length * 4 := by
  unfold padBlock paddedWords
  simp only [length_cons, length_append, length_replicate]
  omega

theorem length_optionalBlock (data : List UInt8) : (optionalBlock data).length = blockWords data * 4 := by
  unfold optionalBlock blockWords
  split
  · rfl
  · exact length_padBlock data

theorem byteAt_optionalBlock {data : List UInt8} (some : data ≠ []) (short : data.length < 256)
    (front rest : List UInt8) :
    byteAt (front ++ (optionalBlock data ++ rest)) front.length = data.length := by
  rw [optionalBlock, if_neg some, padBlock, byteAt, getD_eq_getElem?_getD,
    getElem?_append_right (Nat.le_refl _), Nat.sub_self]
  show (UInt8.ofNat data.length).toNat = _
  rw [UInt8.toNat_ofNat', Nat.mod_eq_of_lt short]

theorem writeAt_append (front rest chunk : List UInt8) :
    writeAt (front ++ rest) front.length chunk = front ++ (chunk ++ rest.drop chunk.length) := by
  rw [writeAt, take_left, drop_length_add_append, append_assoc]

theorem Blocks.Fit.small {radio wireless : List UInt8} (fit : Blocks.Fit ⟨radio, wireless⟩) :
    2 + blockWords radio + blockWords wireless < 32 := fit.2.2

namespace BlockHeader

def edit (h : BlockHeader) : BlockEvent → BlockHeader
  | .radio mac => h.setRadioMacaddress mac
  | .wireless data => h.setWirelessInformation data

def Keeps (h : BlockHeader) : BlockEvent → Prop
  | .radio mac => mac = [] ∨ (h.flagM ∧ byteAt h.area 0 = mac.length) ∨ h.flagW = false
  | .wireless _ => True

variable {h : BlockHeader} {radio wireless mac data : List UInt8}

section

variable (s : h.Shows ⟨radio, wireless⟩) (fit : Blocks.Fit ⟨radio, wireless⟩)
include s fit

theorem Shows.radioLength (some : radio ≠ []) : byteAt h.area 0 = radio.length := by
  obtain ⟨rest, area⟩ := s.area
  have short : radio.length < 256 := by
    have := fit.1
    simp only [mem_cons, not_mem_nil, or_false] at this
    omega
  rw [area]
  exact byteAt_optionalBlock some short [] _

theorem Shows.radioWords : h.radioWords = blockWords radio := by
  rw [BlockHeader.radioWords, blockWords, s.flagM]
  by_cases none : radio = []
  · simp [none]
  · simp [none, s.radioLength fit none]

theorem Shows.wirelessPos : h.wirelessPos = (optionalBlock radio).length := by
  rw [BlockHeader.wirelessPos, s.radioWords fit, length_optionalBlock]

theorem Shows.wirelessWords (some : wireless ≠ []) : h.wirelessWords = blockWords wireless := by
  obtain ⟨rest, area⟩ := s.area
  rw [BlockHeader.wirelessWords, s.wirelessPos fit, area, byteAt_optionalBlock some fit.2.1, blockWords, if_neg some]

theorem Shows.moveWireless (some : wireless ≠ []) (pos : ℕ) :
    h.moveWireless pos = writeAt h.area pos (optionalBlock wireless) := by
  obtain ⟨rest, area⟩ := s.area
  rw [BlockHeader.moveWireless, s.wirelessPos fit, s.wirelessWords fit some, ← length_optionalBlock]
  nth_rewrite 2 [area]
  rw [drop_left, take_left]

theorem Shows.removeRadio : h.removeRadio.Shows ⟨[], wireless⟩ := by
  have length := length_optionalBlock wireless
  have small := fit.small
  have room := s.room
  unfold BlockHeader.removeRadio
  by_cases none : radio = []
  · rw [if_pos (by simp [s.flagM, none]), ← none]
    exact s
  rw [if_neg (by simp [s.flagM, none])]
  by_cases plain : wireless = []
  · subst plain
    rw [if_pos (show h.flagW = false from s.flagW)]
    exact ⟨rfl, s.flagW, rfl, ⟨h.area, rfl⟩, room⟩
  · rw [if_neg (by simp [s.flagW, plain]), s.moveWireless fit plain, s.wirelessWords fit plain]
    refine ⟨rfl, s.flagW, ?_, ⟨_, writeAt_append [] _ _⟩, (length_writeAt_within ?_).trans room⟩
    · rw [Nat.mod_eq_of_lt (by omega)]
      rfl
    · omega

end

theorem Shows.rewrite (s : h.Shows ⟨radio, wireless⟩) (some : radio ≠ []) (same : mac.length = radio.length) :
    Shows { h with area := writeAt h.area 1 mac } ⟨mac, wireless⟩ := by
  have some' : mac ≠ [] := fun none => some (length_eq_zero_iff.1 (same.symm.trans (by rw [none]; rfl)))
  obtain ⟨rest, area⟩ := s.area
  have blocks : optionalBlock radio = [UInt8.ofNat mac.length] ++ (radio ++
      List.replicate (paddedWords mac.length * 4 - 1 - mac.length) 0) := by
    rw [optionalBlock, if_neg some, padBlock, same]
    rfl
  have room := s.room
  rw [area, blocks] at room
  refine ⟨?_, s.flagW, ?_, ⟨rest, ?_⟩, (length_writeAt_within ?_).trans s.room⟩
  · rw [s.flagM]
    simp [some, some']
  · have words : blockWords radio = blockWords mac := by
      rw [blockWords, blockWords, if_neg some, if_neg some', same]
    exact s.hlen.trans (by rw [words])
  · show writeAt h.area 1 mac = optionalBlock mac ++ (optionalBlock wireless ++ rest)
    rw [area, blocks, append_assoc, append_assoc]
    refine (writeAt_append [UInt8.ofNat mac.length] _ _).trans ?_
    rw [same, drop_left, show optionalBlock mac = padBlock mac from if_neg some', padBlock, same]
    simp
  · rw [s.room]
    simp only [length_append, length_cons] at room
    omega

section

variable (s : h.Shows ⟨radio, wireless⟩) (fit : Blocks.Fit ⟨radio, wireless⟩)
include s fit

theorem Shows.setRadioMacaddress (fit' : Blocks.Fit ⟨mac, wireless⟩) (keeps : h.Keeps (.radio mac)) :
    (h.setRadioMacaddress mac).Shows ⟨mac, wireless⟩ := by
  unfold BlockHeader.setRadioMacaddress
  by_cases none : mac = []
  · rw [if_pos none, none]
    exact s.removeRadio fit
  rw [if_neg none]
  by_cases same : h.flagM ∧ byteAt h.area 0 = mac.length
  · rw [if_pos same]
    have some : radio ≠ [] := by simpa [s.flagM] using same.1
    exact s.rewrite some (same.2.symm.trans (s.radioLength fit some))
  rw [if_neg same]
  -- there is no wireless information that would be moved
  obtain rfl : wireless = [] := by simpa [s.flagW] using (keeps.resolve_left none).resolve_left same
  have removed := s.removeRadio fit
  have flag : h.removeRadio.flagW = false := removed.flagW
  have words : blockWords mac = paddedWords mac.length := if_neg none
  have small := fit'.small
  have length := length_padBlock mac
  simp only [addRadio, flag, Bool.false_eq_true, if_false]
  have block : optionalBlock mac = padBlock mac := if_neg none
  have written := writeAt_append [] h.removeRadio.area (padBlock mac)
  rw [← block] at written ⊢
  refine ⟨by simp [none], rfl, ?_, ⟨_, written⟩, (length_writeAt_within ?_).trans removed.room⟩
  · rw [Nat.mod_eq_of_lt (by omega), words]
    rfl
  · rw [removed.room, block]
    omega

theorem Shows.clearWireless : h.clearWireless.Shows ⟨radio, []⟩ := by
  obtain ⟨rest, area⟩ := s.area
  unfold BlockHeader.clearWireless
  by_cases none : wireless = []
  · rw [if_neg (by simp [s.flagW, none]), ← none]
    exact s
  · have small := fit.small
    rw [if_pos (by simp [s.flagW, none]), s.radioWords fit, Nat.mod_eq_of_lt (by omega)]
    exact ⟨s.flagM, rfl, rfl, ⟨_, area⟩, s.room⟩

theorem Shows.setWirelessInformation (fit' : Blocks.Fit ⟨radio, data⟩) :
    (h.setWirelessInformation data).Shows ⟨radio, data⟩ := by
  have cleared := s.clearWireless fit
  unfold BlockHeader.setWirelessInformation
  by_cases none : data = []
  · rw [if_pos none, none]
    exact cleared
  have fitCleared : Blocks.Fit ⟨radio, []⟩ :=
    ⟨fit.1, Nat.zero_lt_succ 255, Nat.lt_of_le_of_lt (Nat.add_le_add_left (Nat.zero_le _) _) fit.small⟩
  have words : blockWords data = paddedWords data.length := if_neg none
  have small := fit'.small
  have length := length_padBlock data
  have radioLength := length_optionalBlock radio
  have pos := cleared.wirelessPos fitCleared
  obtain ⟨rest, area⟩ := cleared.area
  rw [if_neg none]
  have block : optionalBlock data = padBlock data := if_neg none
  have written : writeAt h.clearWireless.area h.clearWireless.wirelessPos (padBlock data) =
      optionalBlock radio ++ (optionalBlock data ++ rest.drop (padBlock data).length) := by
    rw [pos, area, block]
    exact writeAt_append _ _ _
  refine ⟨cleared.flagM, (decide_eq_true none).symm, ?_, ⟨_, written⟩, (length_writeAt_within ?_).trans cleared.room⟩
  · rw [cleared.radioWords fitCleared, ← words, Nat.mod_eq_of_lt small]
  · rw [pos, cleared.room]
    omega

end

def step (s : BlockHeader × Blocks) (e : BlockEvent) : Option (BlockHeader × Blocks) := some (s.1.edit e, s.2.after e)

def Allowed (s : BlockHeader × Blocks) (e : BlockEvent) : Prop := (s.2.after e).Fit ∧ s.1.Keeps e

instance (s : BlockHeader × Blocks) : (e : BlockEvent) → Decidable (Allowed s e)
  | .radio mac => inferInstanceAs (Decidable ((_ ∧ _ ∧ _) ∧ (mac = [] ∨ _ ∨ _)))
  | .wireless _ => inferInstanceAs (Decidable ((_ ∧ _ ∧ _) ∧ True))

/-- After calls that fit, without a new size of the address behind wireless information, the header shows the last
blocks. -/
theorem run_shows {junk : List UInt8} (room : junk.length = 268) {es : List BlockEvent} {h : BlockHeader} {b : Blocks}
    (along : Along step Allowed (init junk, ⟨[], []⟩) es) (run : runFrom step (init junk, ⟨[], []⟩) es = some (h, b)) :
    h.Shows b ∧ h.wirelessPos = (optionalBlock b.radio).length := by
  have kept (s : BlockHeader × Blocks) (e : BlockEvent) (s' : BlockHeader × Blocks) (inv : s.1.Shows s.2 ∧ s.2.Fit)
      (allowed : Allowed s e) (next : step s e = some s') : s'.1.Shows s'.2 ∧ s'.2.Fit := by
    cases next
    refine ⟨?_, allowed.1⟩
    cases e with
    | radio mac => exact inv.1.setRadioMacaddress inv.2 allowed.1 allowed.2
    | wireless data => exact inv.1.setWirelessInformation inv.2 allowed.1
  have start : (init junk).Shows ⟨[], []⟩ ∧ (Blocks.mk [] []).Fit :=
    ⟨⟨rfl, rfl, rfl, ⟨junk, rfl⟩, room⟩, by decide, by decide, by decide⟩
  have inv := along.invariant kept start run
  exact ⟨inv.1, inv.1.wirelessPos inv.2⟩

theorem run_shows_both : ∃ h, runFrom step (init (List.replicate 268 7), ⟨[], []⟩)
      [.radio [1, 2, 3, 4, 5, 6], .wireless [9, 9], .radio [6, 5, 4, 3, 2, 1]] = some
      (h, ⟨[6, 5, 4, 3, 2, 1], [9, 9]⟩) ∧
    h.Shows ⟨[6, 5, 4, 3, 2, 1], [9, 9]⟩ := by
  have along : Along step Allowed (init (List.replicate 268 7), ⟨[], []⟩)
      [.radio [1, 2, 3, 4, 5, 6], .wireless [9, 9], .radio [6, 5, 4, 3, 2, 1]] := by decide +kernel
  have run (junk : List UInt8) : ∃ h, runFrom step (init junk, ⟨[], []⟩)
      [.radio [1, 2, 3, 4, 5, 6], .wireless [9, 9], .radio [6, 5, 4, 3, 2, 1]] =
        some (h, ⟨[6, 5, 4, 3, 2, 1], [9, 9]⟩) := ⟨_, rfl⟩
  obtain ⟨h, run⟩ := run (List.replicate 268 7)
  exact ⟨h, run, (run_shows (length_replicate ..) along run).1⟩

/-- An address that is set while there is wireless information takes its place. -/
theorem wireless_overwritten :
    (runFrom step (init (List.replicate 268 7), ⟨[], []⟩) [.wireless [9, 9], .radio [1, 2, 3, 4, 5, 6]]).map
      (fun s => (s.1.flagW, (s.1.area.drop s.1.wirelessPos).take 4)) = some (true, [7, 7, 7, 7]) ∧
    padBlock [9, 9] = [2, 9, 9, 0] := by
  decide +kernel

end BlockHeader

end OpenWifi.CapwapProtocol
