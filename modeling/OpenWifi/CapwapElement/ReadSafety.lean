import OpenWifi.CapwapElement.Subelements

/-!
# The blocks that parsers ask for

`capwap_fragment_read_block_from_pos` asserts that a block has at least one byte, and its limit holds only as long as
something is left of the element.  `SafeRun` says that a parser keeps to both.
-/

namespace OpenWifi.CapwapElement

open List CapwapProtocol PacketRxmng

variable {ε : Type*} {rx : PacketRxmng} {bytes : List UInt8}

def SafeRun : Reader ε → PacketRxmng → Prop
  | .done _, _ => True
  | .ready next, rx => SafeRun (next rx.readReady) rx
  | .block length next, rx => 0 < length ∧ length ≤ rx.readerpacketallowed ∧
    ∀ r, rx.readBlock length = some r → SafeRun (next r.1) r.2

theorem Delivers.length_le (d : Delivers rx bytes) : bytes.length ≤ rx.stream.length := by
  have := congrArg List.length d.value
  rw [length_take] at this
  omega

theorem Delivers.readBlock (d : Delivers rx bytes) {n : ℕ} (le : n ≤ bytes.length) :
    ∃ rx', rx.readBlock n = some (bytes.take n, rx') ∧ Delivers rx' (bytes.drop n) := by
  obtain ⟨rx', read, after⟩ := readBlock_spec d.readable n
  have long := d.length_le
  have allowed := d.allowed
  have limit : rx.limit n = n := by
    unfold PacketRxmng.limit
    split <;> omega
  have taken : rx.stream.take n = bytes.take n := by
    rw [← d.value, take_take, Nat.min_eq_left le]
  rw [limit, taken] at read after
  rw [length_take, Nat.min_eq_left le] at after
  have := d.readable.allowed
  refine ⟨rx', read, after.readable, by rw [after.allowed, length_drop]; omega, ?_⟩
  nth_rewrite 2 [← d.value]
  rw [after.stream, length_drop, drop_take]

theorem safeRun_iff {reader : Reader ε} (d : Delivers rx bytes) : SafeRun reader rx ↔ reader.Safe bytes := by
  induction reader generalizing rx bytes with
  | done result => exact Iff.rfl
  | ready next ih =>
    have ready : rx.readReady = bytes.length := by
      unfold readReady
      split
      next empty =>
        have := d.length_le
        rw [stream_eq_nil empty] at this
        simpa using this.antisymm' (Nat.zero_le _)
      · exact d.allowed
    rw [SafeRun, Reader.Safe, ready]
    exact ih _ d
  | block length next ih =>
    rw [SafeRun, Reader.Safe, d.allowed]
    refine and_congr_right fun _ => and_congr_right fun le => ?_
    obtain ⟨rx', read, delivers⟩ := d.readBlock le
    rw [← ih _ delivers, read]
    simp

def u8At (bytes : List UInt8) (i : ℕ) : UInt8 := UInt8.ofNat (networkNumber ((bytes.drop i).take 1))

def u16At (bytes : List UInt8) (i : ℕ) : UInt16 := UInt16.ofNat (networkNumber ((bytes.drop i).take 2))

def u32At (bytes : List UInt8) (i : ℕ) : UInt32 := UInt32.ofNat (networkNumber ((bytes.drop i).take 4))

@[simp] theorem u8At_drop (bytes : List UInt8) (i j : ℕ) : u8At (bytes.drop i) j = u8At bytes (i + j) := by
  rw [u8At, drop_drop, u8At]

@[simp] theorem u16At_drop (bytes : List UInt8) (i j : ℕ) : u16At (bytes.drop i) j = u16At bytes (i + j) := by
  rw [u16At, drop_drop, u16At]

@[simp] theorem safe_readU8 (next : UInt8 → Reader ε) (bytes : List UInt8) :
    (readU8 next).Safe bytes ↔ 1 ≤ bytes.length ∧ (next (u8At bytes 0)).Safe (bytes.drop 1) := by
  rw [readU8, Reader.Safe]
  refine (and_iff_right Nat.one_pos).trans (and_congr_right fun le => ?_)
  rw [if_neg (not_not_intro (length_take_of_le le))]
  rfl

@[simp] theorem safe_readU16 (next : UInt16 → Reader ε) (bytes : List UInt8) :
    (readU16 next).Safe bytes ↔ 2 ≤ bytes.length ∧ (next (u16At bytes 0)).Safe (bytes.drop 2) := by
  rw [readU16, Reader.Safe]
  refine (and_iff_right Nat.two_pos).trans (and_congr_right fun le => ?_)
  rw [if_neg (not_not_intro (length_take_of_le le))]
  rfl

@[simp] theorem safe_readU32 (next : UInt32 → Reader ε) (bytes : List UInt8) :
    (readU32 next).Safe bytes ↔ 4 ≤ bytes.length ∧ (next (u32At bytes 0)).Safe (bytes.drop 4) := by
  rw [readU32, Reader.Safe]
  refine (and_iff_right (by decide)).trans (and_congr_right fun le => ?_)
  rw [if_neg (not_not_intro (length_take_of_le le))]
  rfl

@[simp] theorem safe_check (c : Prop) [Decidable c] (result : Option ε) (reader : Reader ε) (bytes : List UInt8) :
    (if c then .done result else reader).Safe bytes ↔ c ∨ reader.Safe bytes := by
  split
  next h => exact ⟨fun _ => .inl h, fun _ => trivial⟩
  next h => exact (or_iff_right h).symm

namespace Format

variable {f : Format}

def vendorAt (f : Format) (bytes : List UInt8) : UInt32 := if f.vendors then u32At bytes 0 else 0

def typeAt (f : Format) (bytes : List UInt8) : UInt16 := u16At bytes (f.width - 4)

def lengthAt (f : Format) (bytes : List UInt8) : UInt16 := u16At bytes (f.width - 2)

/-- Every header that is read is complete, and every sub-element has data, up to one that is refused or to the end. -/
inductive Complete (f : Format) : List UInt8 → Prop
  | nil : Complete f []
  | short {bytes : List UInt8} (checks : f.checksHeader) (short : bytes.length < f.width) : Complete f bytes
  | refused {bytes : List UInt8} (header : f.width ≤ bytes.length)
    (refused : f.refuses (f.typeAt bytes) (f.lengthAt bytes) (bytes.length - f.width)) : Complete f bytes
  | next {bytes : List UInt8} (header : f.width ≤ bytes.length) (data : 0 < (f.lengthAt bytes).toNat)
    (rest : Complete f (bytes.drop (f.width + (f.lengthAt bytes).toNat))) : Complete f bytes

theorem safe_header (f : Format) (next : UInt32 → UInt16 → UInt16 → Reader ε) (bytes : List UInt8) :
    (f.readVendor fun vendor => readU16 fun type => readU16 fun length => next vendor type length).Safe bytes ↔
      f.width ≤ bytes.length ∧
        (next (f.vendorAt bytes) (f.typeAt bytes) (f.lengthAt bytes)).Safe (bytes.drop f.width) := by
  unfold readVendor vendorAt typeAt lengthAt width
  cases f.vendors with
  | true =>
    simp only [if_true, safe_readU32, safe_readU16, length_drop, drop_drop, u16At_drop]
    exact ⟨fun h => ⟨by omega, h.2.2.2⟩, fun h => ⟨by omega, by omega, by omega, h.2⟩⟩
  | false =>
    simp only [Bool.false_eq_true, if_false, safe_readU16, length_drop, drop_drop, u16At_drop]
    exact ⟨fun h => ⟨by omega, h.2.2⟩, fun h => ⟨by omega, by omega, h.2⟩⟩

theorem safe_readSubelements {next : List Subelement → Reader ε} (h : ∀ items bytes, (next items).Safe bytes) {k : ℕ}
    {bytes : List UInt8} (enough : bytes.length < k) : (f.readSubelements k next).Safe bytes ↔ f.Complete bytes := by
  induction k generalizing bytes next with
  | zero => exact absurd enough (Nat.not_lt_zero _)
  | succ k ih =>
    rw [readSubelements, Reader.Safe]
    by_cases nil : bytes = []
    · subst nil
      exact ⟨fun _ => .nil, fun _ => h _ _⟩
    rw [if_neg (by simpa using nil)]
    by_cases short : f.checksHeader ∧ bytes.length < f.width
    · rw [if_pos short]
      exact ⟨fun _ => .short short.1 short.2, fun _ => trivial⟩
    rw [if_neg short, safe_header]
    simp only [Reader.Safe, length_drop]
    have wide : 0 < f.width := by unfold width; split <;> omega
    by_cases refused : f.refuses (f.typeAt bytes) (f.lengthAt bytes) (bytes.length - f.width)
    · rw [if_pos refused]
      constructor
      · exact fun safe => .refused safe.1 refused
      · intro complete
        cases complete with
        | nil => exact absurd rfl nil
        | short checks few => exact absurd ⟨checks, few⟩ short
        | refused header _ | next header _ _ => exact ⟨header, trivial⟩
    · rw [if_neg refused]
      have inside : (f.lengthAt bytes).toNat ≤ bytes.length - f.width :=
        Nat.not_lt.1 fun few => refused (.inr (.inr (.inr few)))
      have shorter (header : f.width ≤ bytes.length) :
        (bytes.drop (f.width + (f.lengthAt bytes).toNat)).length < k := by
        rw [length_drop]
        omega
      simp only [Reader.Safe, length_drop, drop_drop]
      constructor
      · rintro ⟨header, data, -, safe⟩
        exact .next header data ((ih (fun _ => h _) (shorter header)).1 safe)
      · intro complete
        cases complete with
        | nil => exact absurd rfl nil
        | short checks few => exact absurd ⟨checks, few⟩ short
        | refused _ h => exact absurd h refused
        | next header data complete => exact ⟨header, data, inside, (ih (fun _ => h _) (shorter header)).2 complete⟩

theorem safe_readAll (f : Format) (value : List Subelement → ε) (bytes : List UInt8) :
    (f.readAll fun items => .done (some (value items))).Safe bytes ↔ f.Complete bytes := by
  rw [readAll, Reader.Safe]
  refine safe_readSubelements ?_ (Nat.lt_succ_self _)
  exact fun _ _ => trivial

end Format

/-- `struct capwap_80211_addwlan_element`. -/
structure AddWlan where
  radioid : UInt8
  wlanid : UInt8
  capability : UInt16
  keyindex : UInt8
  keystatus : UInt8
  key : List UInt8
  grouptsc : List.Vector UInt8 6
  qos : UInt8
  authmode : UInt8
  macmode : UInt8
  tunnelmode : UInt8
  suppressssid : UInt8
  ssid : List UInt8

/-- `struct capwap_80211_updatewlan_element`. -/
structure UpdateWlan where
  radioid : UInt8
  wlanid : UInt8
  capability : UInt16
  keyindex : UInt8
  keystatus : UInt8
  key : List UInt8

def readKey (keylength : UInt16) (next : List UInt8 → Reader ε) : Reader ε :=
  if 0 < keylength then .block keylength.toNat next else next []

/-- `capwap_80211_addwlan_element_parsing`. -/
def addwlanParsing : Reader AddWlan := .ready fun length =>
  if length < 20 then .done none else
  readU8 fun radioid => readU8 fun wlanid =>
  if ¬(1 ≤ radioid ∧ radioid ≤ 31) then .done none
  else if ¬(1 ≤ wlanid ∧ wlanid ≤ 16) then .done none else
  readU16 fun capability => readU8 fun keyindex => readU8 fun keystatus => readU16 fun keylength =>
  readKey keylength fun key => readBytes 6 fun grouptsc =>
  readU8 fun qos => readU8 fun authmode => readU8 fun macmode => readU8 fun tunnelmode => readU8 fun suppressssid =>
  .ready fun length =>
  if length = 0 ∨ 32 < length then .done none else
  .block length fun ssid => .done (some
    ⟨radioid, wlanid, capability, keyindex, keystatus, key, grouptsc, qos, authmode, macmode, tunnelmode,
      suppressssid, ssid⟩)

/-- `capwap_80211_updatewlan_element_parsing`. -/
def updatewlanParsing : Reader UpdateWlan := .ready fun length =>
  if length < 8 then .done none else
  readU8 fun radioid => readU8 fun wlanid => readU16 fun capability => readU8 fun keyindex => readU8 fun keystatus =>
  readU16 fun keylength =>
  if length - 8 ≠ keylength.toNat then .done none else
  readKey keylength fun key => .done (some ⟨radioid, wlanid, capability, keyindex, keystatus, key⟩)

theorem safe_readKey (keylength : UInt16) {next : List UInt8 → Reader ε} {P : List UInt8 → Prop}
    (h : ∀ key rest, (next key).Safe rest ↔ P rest) (bytes : List UInt8) :
    (readKey keylength next).Safe bytes ↔ keylength.toNat ≤ bytes.length ∧ P (bytes.drop keylength.toNat) := by
  unfold readKey
  split
  next pos =>
    rw [Reader.Safe, h]
    exact and_iff_right (UInt16.lt_iff_toNat_lt.1 pos)
  next zero =>
    have none : keylength.toNat = 0 := Nat.eq_zero_of_not_pos fun pos => zero (UInt16.lt_iff_toNat_lt.2 pos)
    rw [h, none, drop_zero]
    exact (and_iff_right (Nat.zero_le _)).symm

theorem safe_updatewlanParsing (bytes : List UInt8) : updatewlanParsing.Safe bytes := by
  rw [updatewlanParsing, Reader.Safe, safe_check]
  by_cases few : bytes.length < 8
  · exact .inl few
  · simp only [safe_readU8, safe_readU16, safe_check, length_drop, drop_drop, u16At_drop]
    refine .inr ⟨by omega, by omega, by omega, by omega, by omega, by omega, ?_⟩
    rw [safe_readKey _ (P := fun _ => True) fun _ _ => Iff.rfl, length_drop]
    by_cases same : bytes.length - 8 = (u16At bytes 6).toNat
    · exact .inr ⟨same.ge, trivial⟩
    · exact .inl same

theorem safe_addwlanParsing (bytes : List UInt8) :
    addwlanParsing.Safe bytes ↔ bytes.length < 20 ∨ ¬(1 ≤ u8At bytes 0 ∧ u8At bytes 0 ≤ 31) ∨
      ¬(1 ≤ u8At bytes 1 ∧ u8At bytes 1 ≤ 16) ∨ (u16At bytes 6).toNat + 19 ≤ bytes.length := by
  rw [addwlanParsing, Reader.Safe, safe_check]
  refine or_congr_right' fun long => ?_
  simp only [safe_readU8, safe_readU16, safe_check, length_drop, drop_drop, u8At_drop, u16At_drop, Nat.reduceAdd]
  have first : 1 ≤ bytes.length ∧ 1 ≤ bytes.length - 1 := by omega
  rw [← and_assoc, and_iff_right first]
  refine or_congr Iff.rfl (or_congr Iff.rfl ?_)
  rw [safe_readKey _ (P := fun rest => 11 ≤ rest.length)]
  · simp only [length_drop]
    omega
  · intro key rest
    rw [readBytes, Reader.Safe]
    simp only [safe_readU8, safe_check, length_drop, Reader.Safe, and_true]
    omega

def AcRefused (bytes : List UInt8) : Prop :=
  bytes.length < 12 ∨ u16At bytes 2 < u16At bytes 0 ∨ u16At bytes 6 < u16At bytes 4 ∨ u8At bytes 8 &&& ~~~6 ≠ 0 ∨
    u8At bytes 11 &&& ~~~6 ≠ 0 ∨ u8At bytes 9 ≠ 1 ∧ u8At bytes 9 ≠ 2

theorem safe_acdescriptorParsing (bytes : List UInt8) :
    acdescriptorParsing.Safe bytes ↔ AcRefused bytes ∨ acFormat.Complete (bytes.drop 12) := by
  rw [acdescriptorParsing, Reader.Safe, safe_check, AcRefused, or_assoc]
  refine or_congr_right' fun long => ?_
  have numbers : 2 ≤ bytes.length ∧ 2 ≤ bytes.length - 2 ∧ 2 ≤ bytes.length - 4 ∧ 2 ≤ bytes.length - 6 := by omega
  have octets : 1 ≤ bytes.length - 8 ∧ 1 ≤ bytes.length - 9 ∧ 1 ≤ bytes.length - 10 ∧ 1 ≤ bytes.length - 11 := by omega
  simp only [safe_readU8, safe_readU16, safe_check, Format.safe_readAll, length_drop, drop_drop, u8At_drop,
    u16At_drop, Nat.reduceAdd, numbers, octets, true_and, or_assoc]

theorem safe_wtpboarddataParsing (bytes : List UInt8) :
    wtpboarddataParsing.Safe bytes ↔ bytes.length < 14 ∨ u32At bytes 0 = 0 ∨ boardFormat.Complete (bytes.drop 4) := by
  rw [wtpboarddataParsing, Reader.Safe, safe_check]
  refine or_congr_right' fun long => ?_
  have vendor : 4 ≤ bytes.length := by omega
  simp [safe_readU32, safe_check, Format.safe_readAll, vendor, true_and]

def EncryptRefused (bytes : List UInt8) (i : ℕ) : Prop :=
  bytes.length < 3 * i + 3 ∨ u8At bytes (3 * i) &&& 0x1f ≠ u8At bytes (3 * i)

theorem safe_readEncrypts {next : List EncryptSubelement → Reader ε} {P : List UInt8 → Prop}
    (h : ∀ es rest, (next es).Safe rest ↔ P rest) (n : ℕ) (bytes : List UInt8) :
    (readMany readEncrypt n next).Safe bytes ↔ (∃ i < n, EncryptRefused bytes i) ∨ P (bytes.drop (3 * n)) := by
  induction n generalizing next bytes with
  | zero => simpa [readMany] using h [] bytes
  | succ n ih =>
    have shift (i : ℕ) : EncryptRefused (bytes.drop 3) i ↔ EncryptRefused bytes (i + 1) := by
      rw [EncryptRefused, EncryptRefused, length_drop, u8At_drop, show 3 + 3 * i = 3 * (i + 1) by omega]
      exact or_congr (by omega) Iff.rfl
    rw [readMany, readEncrypt, Reader.Safe, safe_check]
    by_cases few : bytes.length < 3
    · exact ⟨fun _ => .inl ⟨0, n.succ_pos, .inl few⟩, fun _ => .inl few⟩
    have read : 1 ≤ bytes.length ∧ 2 ≤ bytes.length - 1 := by omega
    simp only [safe_readU8, safe_readU16, safe_check, length_drop, drop_drop, few, read, true_and, false_or,
      Nat.reduceAdd, ih (fun es rest => h (_ :: es) rest), shift, Nat.exists_lt_succ_left, ← or_assoc]
    refine or_congr (or_congr ?_ Iff.rfl) ?_
    · exact ⟨.inr, fun refused => refused.resolve_left few⟩
    · rw [Nat.mul_succ, Nat.add_comm]

theorem safe_wtpdescriptorParsing (bytes : List UInt8) :
    wtpdescriptorParsing.Safe bytes ↔ bytes.length < 33 ∨ u8At bytes 2 = 0 ∨ u8At bytes 0 < u8At bytes 1 ∨
      (∃ i < (u8At bytes 2).toNat, EncryptRefused (bytes.drop 3) i) ∨
      wtpFormat.Complete (bytes.drop (3 + 3 * (u8At bytes 2).toNat)) := by
  rw [wtpdescriptorParsing, Reader.Safe, safe_check]
  refine or_congr_right' fun long => ?_
  have fixed : 1 ≤ bytes.length ∧ 1 ≤ bytes.length - 1 ∧ 1 ≤ bytes.length - 2 := by omega
  simp only [safe_readU8, safe_check, length_drop, drop_drop, u8At_drop, Nat.reduceAdd, fixed, true_and,
    safe_readEncrypts fun es rest => Format.safe_readAll _ _ rest]

/-- The five parsers read blocks that have a byte and are within the element, exactly under these conditions on its
bytes. -/
theorem parsers_safeRun_iff (d : Delivers rx bytes) :
    (SafeRun acdescriptorParsing rx ↔ AcRefused bytes ∨ acFormat.Complete (bytes.drop 12)) ∧
    (SafeRun wtpdescriptorParsing rx ↔ bytes.length < 33 ∨ u8At bytes 2 = 0 ∨ u8At bytes 0 < u8At bytes 1 ∨
      (∃ i < (u8At bytes 2).toNat, EncryptRefused (bytes.drop 3) i) ∨
      wtpFormat.Complete (bytes.drop (3 + 3 * (u8At bytes 2).toNat))) ∧
    (SafeRun wtpboarddataParsing rx ↔ bytes.length < 14 ∨ u32At bytes 0 = 0 ∨ boardFormat.Complete (bytes.drop 4)) ∧
    (SafeRun addwlanParsing rx ↔ bytes.length < 20 ∨ ¬(1 ≤ u8At bytes 0 ∧ u8At bytes 0 ≤ 31) ∨
      ¬(1 ≤ u8At bytes 1 ∧ u8At bytes 1 ≤ 16) ∨ (u16At bytes 6).toNat + 19 ≤ bytes.length) ∧
    SafeRun updatewlanParsing rx :=
  ⟨(safeRun_iff d).trans (safe_acdescriptorParsing bytes), (safeRun_iff d).trans (safe_wtpdescriptorParsing bytes),
    (safeRun_iff d).trans (safe_wtpboarddataParsing bytes), (safeRun_iff d).trans (safe_addwlanParsing bytes),
    (safeRun_iff d).2 (safe_updatewlanParsing bytes)⟩

/-- Descriptors with one or two sub-elements, and an Add WLAN with a key of two bytes. -/
theorem parsers_safeRun_iff_plain :
    SafeRun acdescriptorParsing (elementValue ([0, 0, 0, 9, 0, 0, 0, 9, 4, 1, 0, 2] ++ [0, 0, 0, 0, 0, 4, 0, 1, 65] ++
        [0, 0, 0, 0, 0, 5, 0, 2, 65, 66])) ∧
      SafeRun wtpdescriptorParsing (elementValue ([1, 1, 1, 1, 0, 0] ++ [0, 0, 0, 0, 0, 0, 0, 20] ++
        List.replicate 20 65)) ∧
      SafeRun wtpboarddataParsing (elementValue ([0, 0, 0, 9] ++ [0, 0, 0, 2, 65, 66] ++ [0, 1, 0, 1, 65])) ∧
      SafeRun addwlanParsing (elementValue ([1, 1, 0, 0, 0, 0, 0, 2] ++ List.replicate 13 0)) := by
  refine ⟨?_, ?_, ?_, ?_⟩
  · refine (parsers_safeRun_iff (delivers_elementValue (by decide))).1.2 (.inr ?_)
    exact .next (by decide) (by decide) (.next (by decide) (by decide) .nil)
  · refine (parsers_safeRun_iff (delivers_elementValue (by decide))).2.1.2 (.inr (.inr (.inr (.inr ?_))))
    exact .next (by decide) (by decide) .nil
  · refine (parsers_safeRun_iff (delivers_elementValue (by decide))).2.2.1.2 (.inr (.inr ?_))
    exact .next (by decide) (by decide) (.next (by decide) (by decide) .nil)
  · exact (parsers_safeRun_iff (delivers_elementValue (by decide))).2.2.2.1.2 (.inr (.inr (.inr (by decide))))

/-- A sub-element of an AC Descriptor without data, and a key that is longer than an Add WLAN. -/
theorem not_safeRun :
    ¬SafeRun acdescriptorParsing (elementValue [0, 0, 0, 9, 0, 0, 0, 9, 4, 1, 0, 2, 0, 0, 0, 0, 0, 4, 0, 0]) ∧
      ¬SafeRun addwlanParsing (elementValue ([1, 1, 0, 0, 0, 0, 1, 0] ++ List.replicate 12 0)) := by
  rw [safeRun_iff (delivers_elementValue (by decide)), safeRun_iff (delivers_elementValue (by decide))]
  decide +kernel

end OpenWifi.CapwapElement
