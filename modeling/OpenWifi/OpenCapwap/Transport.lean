import OpenWifi.Lib.BitFields
import OpenWifi.Lib.Bytes
import Mathlib.Data.Vector.Basic

/-!
# The transport header of opencapwap

`CWAssembleTransportHeader` (`CWProtocol.c`) writes the header of a packet and the optional blocks behind it, the MAC
address of the radio and the values of the wireless binding; `CWParseTransportHeader` reads it.
-/

namespace OpenWifi.OpenCapwap

open List Option

/-! ## Messages -/

/-- What a function raises that returns `CW_FALSE`; `outside` when it reads behind the end of the memory it has. -/
inductive CWError
  | invalidFormat (text : String)
  | needResource
  | outside
  deriving DecidableEq

abbrev Retrieve := StateT (List UInt8) (Except CWError)

/-- `CWProtocolRetrieveRawBytes`. -/
def retrieveRawBytes (n : ℕ) : Retrieve (List UInt8) := fun msg =>
  if n ≤ msg.length then .ok (msg.take n, msg.drop n) else .error .outside

/-- `CWProtocolRetrieve8`. -/
def retrieve8 : Retrieve ℕ := return byteAt (← retrieveRawBytes 1) 0

/-- `CWProtocolRetrieve16`. -/
def retrieve16 : Retrieve ℕ := return readBe16 (← retrieveRawBytes 2) 0

/-- `CWProtocolRetrieve32`. -/
def retrieve32 : Retrieve ℕ := do
  let bytes ← retrieveRawBytes 4
  return readBe16 bytes 0 * 65536 + readBe16 bytes 2

/-- `CWGetField32`; the mask of a length is a remainder. -/
def getField32 (src start len : ℕ) : ℕ := getField 32 src start len

/-- The calls of `CWSetField32` for a word that is 0. -/
def setFields32 (fields : List BitField) : ℕ := pack 32 fields

/-! ## Values -/

/-- `CWBindingTransportHeaderValues`. -/
structure BindingValues where
  RSSI : UInt8
  SNR : UInt8
  dataRate : ℕ
  deriving DecidableEq

/-- `CWProtocolTransportHeaderValues`. -/
structure HeaderValues where
  payloadType : ℕ
  type : ℕ
  isFragment : ℕ
  last : ℕ
  fragmentID : ℕ
  fragmentOffset : ℕ
  keepAlive : ℕ
  bindingValues : Option BindingValues
  deriving DecidableEq

/-- `gRADIO_MAC`. -/
abbrev RadioMac := List.Vector UInt8 6

def RadioMac.present (mac : RadioMac) : Bool := mac.toList.any (· ≠ 0)

/-- `CW_PROTOCOL_VERSION`. -/
def protocolVersion : ℕ := 0

/-- `CW_PACKET_PLAIN`. -/
def packetPlain : ℕ := 0

/-- `CW_BINDING_HLEN`. -/
def bindingHlen : ℕ := 4

/-- `CW_BINDING_DATALENGTH`. -/
def bindingDatalength : ℕ := 4

/-! ## Writing -/

def headerLength (mac : RadioMac) (values : HeaderValues) : ℕ :=
  if mac.present then
    if values.bindingValues.isSome then bindingHlen + 2 else 2 + 2
  else if values.bindingValues.isSome then bindingHlen else 2

def firstFields (mac : RadioMac) (values : HeaderValues) : List BitField :=
  [⟨0, 4, protocolVersion⟩, ⟨4, 4, if values.payloadType = packetPlain then 0 else 1⟩,
   ⟨8, 5, headerLength mac values⟩,
   ⟨13, 5, 0⟩,
   ⟨18, 5, 1⟩,
   ⟨23, 1, if values.bindingValues.isSome then 1 else if values.type = 1 then 1 else 0⟩,
   ⟨24, 1, values.isFragment⟩,
   ⟨25, 1, values.last⟩,
   ⟨26, 1, if values.bindingValues.isSome then 1 else 0⟩,
   ⟨27, 1, if mac.present then 1 else 0⟩,
   ⟨28, 1, 0⟩,
   ⟨29, 3, 0⟩]

def secondFields (values : HeaderValues) : List BitField :=
  [⟨0, 16, values.fragmentID⟩, ⟨16, 13, values.fragmentOffset⟩, ⟨29, 3, 0⟩]

/-- The fields of the first word of `CWAssembleTransportHeaderBinding`. -/
def bindingFields (values : BindingValues) : List BitField :=
  [⟨0, 8, bindingDatalength⟩, ⟨8, 8, values.RSSI.toNat⟩, ⟨16, 8, values.SNR.toNat⟩, ⟨24, 8, values.dataRate / 256⟩]

def bindingRest (values : BindingValues) : List BitField :=
  [⟨0, 8, values.dataRate % 256⟩, ⟨8, 24, 0⟩]

/-- `CWAssembleTransportHeaderBinding`. -/
def assembleTransportHeaderBinding (values : BindingValues) : List UInt8 :=
  be32 (setFields32 (bindingFields values)) ++ be32 (setFields32 (bindingRest values))

def macBlock (mac : RadioMac) : List UInt8 := 6 :: (mac.toList ++ [0])

/-- `CWAssembleTransportHeader`. -/
def assembleTransportHeader (mac : RadioMac) (values : HeaderValues) : List UInt8 :=
  be32 (setFields32 (firstFields mac values)) ++ be32 (setFields32 (secondFields values)) ++
    (if mac.present then macBlock mac else []) ++
    (values.bindingValues.map assembleTransportHeaderBinding).getD []

/-! ## Reading -/

/-- `data_msgType` of a message. -/
inductive DataMsgType
  | frame | stats | freqStats | ieee8023 | keepAlive | ieee80211
  deriving DecidableEq

/-- What `CWParseTransportHeader` leaves behind. -/
structure ParsedHeader where
  values : HeaderValues
  dataFlag : Bool
  radioMac : Option (List UInt8)
  dataMsgType : Option DataMsgType
  deriving DecidableEq

/-- `CWParseTransportHeaderMACAddress`, with a place to copy the address to or without one. -/
def parseTransportHeaderMACAddress (copies : Bool) : Retrieve (Option (List UInt8)) := do
  let macLen ← retrieve8
  let vval ← retrieveRawBytes 7
  if !copies then return none
  -- `memcpy` takes the length from the packet, and `vval` has 7 bytes.
  if 7 < macLen then throw .outside
  return some (vval.take macLen)

/-- `CWParseTransportHeaderBinding`.  The lower byte of the data rate is looked for where the upper one is. -/
def parseTransportHeaderBinding : Retrieve (BindingValues × Option DataMsgType) := do
  let val ← retrieve32
  if getField32 val 0 8 ≠ bindingDatalength then throw (.invalidFormat "Wrong Binding Data Field Length")
  let snr := getField32 val 16 8
  let upper := getField32 val 24 8
  let rest ← retrieve32
  let dataMsgType :=
    if upper = 255 then some (if snr = 1 then .freqStats else .stats)
    else if upper = 0 then some .frame
    else none
  let values : BindingValues :=
    { RSSI := UInt8.ofNat (getField32 val 8 8)
      SNR := UInt8.ofNat snr
      dataRate := (upper <<< 8) ||| getField32 rest 24 8 }
  return (values, dataMsgType)

/-- The part of `CWParseTransportHeader` for the binding of a data packet. -/
def parseDataBinding (keepAlive type w : ℕ) : Retrieve (Option BindingValues × Option DataMsgType) := do
  if keepAlive ≠ 0 then
    let _length ← retrieve16
    return (none, some .keepAlive)
  else if type = 0 then
    if w ≠ 0 then
      let (values, dataMsgType) ← parseTransportHeaderBinding
      return (some values, dataMsgType)
    else return (none, some .ieee8023)
  else if w ≠ 0 then
    let (values, _) ← parseTransportHeaderBinding
    return (some values, some .ieee80211)
  else return (none, some .ieee80211)

def parseOptionalMAC (copies : Bool) (m : ℕ) : Retrieve (Option (List UInt8)) :=
  if m ≠ 0 then parseTransportHeaderMACAddress copies else pure none

def wordValues (val second : ℕ) : HeaderValues where
  payloadType := getField32 val 4 4
  type := getField32 val 23 1
  isFragment := getField32 val 24 1
  last := getField32 val 25 1
  fragmentID := getField32 second 0 16
  fragmentOffset := getField32 second 16 13
  keepAlive := getField32 val 28 1
  bindingValues := none

/-- The part of `CWParseTransportHeader` behind the two words. -/
def parseOptions (dataFlag copies : Bool) (values : HeaderValues) (hlen w m : ℕ) : Retrieve ParsedHeader := do
  if dataFlag then
    let (bindingValues, dataMsgType) ← parseDataBinding values.keepAlive values.type w
    let radioMac ← parseOptionalMAC copies m
    return ⟨{ values with bindingValues := bindingValues }, true, radioMac, dataMsgType⟩
  else if hlen = 4 ∧ w = 1 then
    let (bindingValues, dataMsgType) ← parseTransportHeaderBinding
    return ⟨{ values with bindingValues := some bindingValues }, true, none, dataMsgType⟩
  else
    let radioMac ← parseOptionalMAC copies m
    return ⟨values, false, radioMac, none⟩

/-- `CWParseTransportHeader`. -/
def parseTransportHeader (dataFlag copies : Bool) : Retrieve ParsedHeader := do
  let val ← retrieve32
  if getField32 val 0 4 ≠ protocolVersion then throw (.invalidFormat "Wrong Protocol Version")
  let hlen := getField32 val 8 5
  let w := getField32 val 26 1
  let m := getField32 val 27 1
  let second ← retrieve32
  let parsed ← parseOptions dataFlag copies (wordValues val second) hlen w m
  if hlen = 2 ∨ (hlen = 4 ∧ w = 1) ∨ m ≠ 0 then return parsed
  throw (.invalidFormat "Malformed Transport Header")

/-! ## Reading back -/

variable {α β : Type} {mac : RadioMac} {values : HeaderValues} {rest : List UInt8}

theorem bind_retrieve {x : Retrieve α} {f : α → Retrieve β} {msg msg' : List UInt8} {a : α}
    (h : x msg = .ok (a, msg')) : (x >>= f) msg = f a msg' := by
  simp [bind, StateT.bind, h, Except.bind]

theorem retrieveRawBytes_append {n : ℕ} (front : List UInt8) (width : front.length = n) (rest : List UInt8) :
    retrieveRawBytes n (front ++ rest) = .ok (front, rest) := by
  subst width
  simp [retrieveRawBytes]

theorem retrieve8_cons (b : UInt8) (rest : List UInt8) : retrieve8 (b :: rest) = .ok (b.toNat, rest) :=
  bind_retrieve (retrieveRawBytes_append [b] rfl rest)

theorem retrieve32_be32 {n : ℕ} (lt : n < 2 ^ 32) (rest : List UInt8) :
    retrieve32 (be32 n ++ rest) = .ok (n, rest) := by
  have number : readBe16 (be32 n) 0 * 65536 + readBe16 (be32 n) 2 = n := by
    simp only [readBe16, byteAt, be32, be16, cons_append, nil_append, getD_cons_zero, getD_cons_succ,
      UInt8.toNat_ofNat']
    omega
  rw [retrieve32, bind_retrieve (retrieveRawBytes_append (be32 n) (length_be32 n) rest), number]
  rfl

theorem getField32_first (mac : RadioMac) (values : HeaderValues) {f : BitField} (mem : f ∈ firstFields mac values) :
    getField32 (setFields32 (firstFields mac values)) f.start f.len = f.val % 2 ^ f.len :=
  getField_pack (by simp [firstFields]) (by simp [firstFields, BitField.Apart]) mem

theorem getField32_second (values : HeaderValues) {f : BitField} (mem : f ∈ secondFields values) :
    getField32 (setFields32 (secondFields values)) f.start f.len = f.val % 2 ^ f.len :=
  getField_pack (by simp [secondFields]) (by simp [secondFields, BitField.Apart]) mem

theorem getField32_binding (binding : BindingValues) {f : BitField} (mem : f ∈ bindingFields binding) :
    getField32 (setFields32 (bindingFields binding)) f.start f.len = f.val % 2 ^ f.len :=
  getField_pack (by simp [bindingFields]) (by simp [bindingFields, BitField.Apart]) mem

theorem setFields32_lt {fields : List BitField} (fits : ∀ f ∈ fields, f.start + f.len ≤ 32) :
    setFields32 fields < 2 ^ 32 := pack_lt fits

structure HeaderValues.Encodable (values : HeaderValues) : Prop where
  isFragment : values.isFragment < 2
  last : values.last < 2
  fragmentID : values.fragmentID < 65536
  fragmentOffset : values.fragmentOffset < 8192
  dataRate : ∀ binding ∈ values.bindingValues, binding.dataRate < 65536

def sentValues (values : HeaderValues) : HeaderValues where
  payloadType := if values.payloadType = packetPlain then 0 else 1
  type := if values.bindingValues.isSome then 1 else if values.type = 1 then 1 else 0
  isFragment := values.isFragment % 2
  last := values.last % 2
  fragmentID := values.fragmentID % 65536
  fragmentOffset := values.fragmentOffset % 8192
  keepAlive := 0
  bindingValues := none

theorem keepAlive_sent (values : HeaderValues) : (sentValues values).keepAlive = 0 := rfl

theorem wordValues_sent (mac : RadioMac) (values : HeaderValues) :
    wordValues (setFields32 (firstFields mac values)) (setFields32 (secondFields values)) = sentValues values := by
  have first (f : BitField) (mem : f ∈ firstFields mac values) := getField32_first mac values mem
  have second (f : BitField) (mem : f ∈ secondFields values) := getField32_second values mem
  simp only [firstFields, forall_mem_cons] at first
  simp only [secondFields, forall_mem_cons] at second
  obtain ⟨-, payloadType, -, -, -, type, isFragment, last, -, -, keepAlive, -⟩ := first
  obtain ⟨fragmentID, fragmentOffset, -⟩ := second
  simp only [wordValues, sentValues, HeaderValues.mk.injEq, firstFields, secondFields]
  refine ⟨payloadType.trans ?_, type.trans ?_, isFragment, last, fragmentID, fragmentOffset, keepAlive, trivial⟩
  · split <;> rfl
  · split_ifs <;> rfl

def optionBytes (mac : RadioMac) (values : HeaderValues) : List UInt8 :=
  (if mac.present then macBlock mac else []) ++ (values.bindingValues.map assembleTransportHeaderBinding).getD []

theorem parseTransportHeader_assembled (dataFlag copies : Bool) (mac : RadioMac) (values : HeaderValues)
    (rest : List UInt8) : parseTransportHeader dataFlag copies (assembleTransportHeader mac values ++ rest) =
      parseOptions dataFlag copies (sentValues values) (headerLength mac values)
        (if values.bindingValues.isSome then 1 else 0) (if mac.present then 1 else 0)
        (optionBytes mac values ++ rest) := by
  have first (f : BitField) (mem : f ∈ firstFields mac values) := getField32_first mac values mem
  have ltFirst : setFields32 (firstFields mac values) < 2 ^ 32 := setFields32_lt (by simp [firstFields])
  have ltSecond : setFields32 (secondFields values) < 2 ^ 32 := setFields32_lt (by simp [secondFields])
  have values_eq := wordValues_sent mac values
  have bytes : assembleTransportHeader mac values ++ rest = be32 (setFields32 (firstFields mac values)) ++
      (be32 (setFields32 (secondFields values)) ++ (optionBytes mac values ++ rest)) := by
    simp [assembleTransportHeader, optionBytes]
  generalize word : setFields32 (firstFields mac values) = val at *
  generalize setFields32 (secondFields values) = second at *
  simp only [firstFields, forall_mem_cons] at first
  obtain ⟨version, -, hlen, -, -, -, -, -, w, m, -⟩ := first
  have hlen : getField32 val 8 5 = headerLength mac values := hlen.trans (by
    unfold headerLength
    split_ifs <;> rfl)
  have w : getField32 val 26 1 = if values.bindingValues.isSome then 1 else 0 := w.trans (by split_ifs <;> rfl)
  have m : getField32 val 27 1 = if mac.present then 1 else 0 := m.trans (by split_ifs <;> rfl)
  rw [bytes, parseTransportHeader, bind_retrieve (retrieve32_be32 ltFirst _)]
  have accepted : headerLength mac values = 2 ∨
      (headerLength mac values = 4 ∧ (if values.bindingValues.isSome then 1 else 0) = 1) ∨
      (if mac.present then 1 else 0) ≠ 0 := by
    unfold headerLength
    cases mac.present <;> cases values.bindingValues.isSome <;> simp [bindingHlen]
  rw [if_neg (by simp [version, protocolVersion])]
  dsimp only
  rw [bind_retrieve (retrieve32_be32 ltSecond _), values_eq, hlen, w, m]
  simp only [accepted, if_true, bind_pure]

/-! ## The optional parts -/

theorem parseTransportHeaderMACAddress_block (copies : Bool) (mac : RadioMac) (rest : List UInt8) :
    parseTransportHeaderMACAddress copies (macBlock mac ++ rest) =
      .ok (if copies then some mac.toList else none, rest) := by
  have block : macBlock mac ++ rest = 6 :: ((mac.toList ++ [0]) ++ rest) := by simp [macBlock]
  have width : (mac.toList ++ [0]).length = 7 := by simp
  rw [block, parseTransportHeaderMACAddress, bind_retrieve (retrieve8_cons 6 _),
    bind_retrieve (retrieveRawBytes_append _ width rest)]
  cases copies with
  | false => rfl
  | true =>
    have address : (mac.toList ++ [0]).take 6 = mac.toList := take_left' (by simp)
    simp only [Bool.not_true, Bool.false_eq_true, if_false, if_true, UInt8.reduceToNat, Nat.reduceLT, address]
    rfl

variable {binding : BindingValues}

theorem parseTransportHeaderBinding_assembled (lt : binding.dataRate < 65536) (rest : List UInt8) :
    ∃ dataMsgType, parseTransportHeaderBinding (assembleTransportHeaderBinding binding ++ rest) =
      .ok (({ binding with dataRate := binding.dataRate / 256 * 256 }, dataMsgType), rest) := by
  have ltFirst : setFields32 (bindingFields binding) < 2 ^ 32 := setFields32_lt (by simp [bindingFields])
  have ltRest : setFields32 (bindingRest binding) < 2 ^ 32 := setFields32_lt (by simp [bindingRest])
  have fields (f : BitField) (mem : f ∈ bindingFields binding) := getField32_binding binding mem
  -- The lower byte of the rate is in the first bits of the second word.
  have lower : getField32 (setFields32 (bindingRest binding)) 24 8 = 0 := by
    simp only [setFields32, bindingRest, pack, foldl_cons, foldl_nil, setField_value_zero, getField32]
    rw [getField_setField_apart (by decide) (by decide) (by decide), getField_zero]
  have bytes : assembleTransportHeaderBinding binding ++ rest =
      be32 (setFields32 (bindingFields binding)) ++ (be32 (setFields32 (bindingRest binding)) ++ rest) := by
    simp [assembleTransportHeaderBinding]
  generalize setFields32 (bindingFields binding) = val at *
  generalize setFields32 (bindingRest binding) = second at *
  simp only [bindingFields, forall_mem_cons] at fields
  obtain ⟨length, RSSI, SNR, upper, -⟩ := fields
  rw [bytes, parseTransportHeaderBinding, bind_retrieve (retrieve32_be32 ltFirst _),
    if_neg (by simp [length, bindingDatalength])]
  dsimp only
  rw [bind_retrieve (retrieve32_be32 ltRest _)]
  refine ⟨_, congrArg Except.ok (Prod.ext (Prod.ext ?_ rfl) rfl)⟩
  have rate : binding.dataRate / 256 % 2 ^ 8 = binding.dataRate / 256 := by omega
  simp only [RSSI, SNR, upper, lower, rate, Nat.or_zero, Nat.shiftLeft_eq]
  simp

theorem parseTransportHeaderBinding_macBlock (mac : RadioMac) (rest : List UInt8) :
    parseTransportHeaderBinding (macBlock mac ++ rest) = .error (.invalidFormat "Wrong Binding Data Field Length") := by
  match mac with
  | ⟨[a, b, c, d, e, f], _⟩ =>
    have word : retrieve32 ([6, a, b, c] ++ ([d, e, f, 0] ++ rest)) =
        .ok ((6 * 256 + a.toNat) * 65536 + (b.toNat * 256 + c.toNat), [d, e, f, 0] ++ rest) := by
      rw [retrieve32, bind_retrieve (retrieveRawBytes_append (n := 4) [6, a, b, c] rfl _)]
      simp [readBe16, byteAt]
      rfl
    have length : getField32 ((6 * 256 + a.toNat) * 65536 + (b.toNat * 256 + c.toNat)) 0 8 = 6 := by
      have := a.toNat_lt
      have := b.toNat_lt
      have := c.toNat_lt
      simp only [getField32, getField, Nat.shiftRight_eq_div_pow]
      omega
    show parseTransportHeaderBinding ([6, a, b, c] ++ ([d, e, f, 0] ++ rest)) = _
    rw [parseTransportHeaderBinding, bind_retrieve word, if_pos (by simp [length, bindingDatalength])]
    rfl

theorem parseOptionalMAC_block (copies : Bool) (mac : RadioMac) (rest : List UInt8) :
    parseOptionalMAC copies (if mac.present then 1 else 0) ((if mac.present then macBlock mac else []) ++ rest) =
      .ok (if mac.present && copies then some mac.toList else none, rest) := by
  cases mac.present with
  | false => rfl
  | true => simpa [parseOptionalMAC] using parseTransportHeaderMACAddress_block copies mac rest

theorem parseDataBinding_without (type : ℕ) (msg : List UInt8) :
    parseDataBinding 0 type 0 msg = .ok ((none, some (if type = 0 then .ieee8023 else .ieee80211)), msg) := by
  by_cases frame : type = 0 <;> simp [parseDataBinding, frame] <;> rfl

theorem parseDataBinding_with (type : ℕ) (lt : binding.dataRate < 65536) (rest : List UInt8) :
    ∃ dataMsgType, parseDataBinding 0 type 1 (assembleTransportHeaderBinding binding ++ rest) =
      .ok ((some { binding with dataRate := binding.dataRate / 256 * 256 }, dataMsgType), rest) := by
  obtain ⟨dataMsgType, read⟩ := parseTransportHeaderBinding_assembled lt rest
  by_cases frame : type = 0
  · refine ⟨dataMsgType, ?_⟩
    simp only [parseDataBinding, frame, ne_eq, not_true_eq_false, if_false, one_ne_zero, not_false_eq_true, if_true]
    rw [bind_retrieve read]
    rfl
  · refine ⟨some .ieee80211, ?_⟩
    simp only [parseDataBinding, frame, ne_eq, not_true_eq_false, if_false, one_ne_zero, not_false_eq_true, if_true]
    rw [bind_retrieve read]
    rfl

theorem bind_error {x : Retrieve α} {f : α → Retrieve β} {msg : List UInt8} {e : CWError} (h : x msg = .error e) :
    (x >>= f) msg = .error e := by
  simp [bind, StateT.bind, h, Except.bind]

theorem parseDataBinding_macBlock (type : ℕ) (mac : RadioMac) (rest : List UInt8) :
    parseDataBinding 0 type 1 (macBlock mac ++ rest) = .error (.invalidFormat "Wrong Binding Data Field Length") := by
  have wrong := parseTransportHeaderBinding_macBlock mac rest
  by_cases frame : type = 0 <;> simp [parseDataBinding, frame, bind_error wrong]

/-! ## Data packets -/

/-- The header of a data packet is read back as it was written, and what is left is the payload. -/
def RoundTrips (mac : RadioMac) (values : HeaderValues) (payload : List UInt8) : Prop :=
  ∃ parsed, parseTransportHeader true true (assembleTransportHeader mac values ++ payload) = .ok (parsed, payload) ∧
    parsed.values.isFragment = values.isFragment ∧ parsed.values.last = values.last ∧
    parsed.values.fragmentID = values.fragmentID ∧ parsed.values.fragmentOffset = values.fragmentOffset ∧
    parsed.values.bindingValues = values.bindingValues ∧
    parsed.radioMac = if mac.present then some mac.toList else none

theorem parse_withoutBinding (dataFlag copies : Bool) (mac : RadioMac) (without : values.bindingValues = none)
    (payload : List UInt8) :
    ∃ dataMsgType, parseTransportHeader dataFlag copies (assembleTransportHeader mac values ++ payload) =
      .ok (⟨sentValues values, dataFlag, if mac.present && copies then some mac.toList else none, dataMsgType⟩,
        payload) := by
  have options : optionBytes mac values ++ payload = (if mac.present then macBlock mac else []) ++ payload := by
    simp [optionBytes, without]
  rw [parseTransportHeader_assembled, options, without]
  simp only [isSome_none, Bool.false_eq_true, if_false, parseOptions, keepAlive_sent, zero_ne_one, and_false]
  cases dataFlag with
  | true =>
    refine ⟨some (if (sentValues values).type = 0 then .ieee8023 else .ieee80211), ?_⟩
    rw [if_pos rfl, bind_retrieve (parseDataBinding_without _ _),
      bind_retrieve (parseOptionalMAC_block copies mac payload)]
    rfl
  | false =>
    refine ⟨none, ?_⟩
    rw [if_neg nofun, bind_retrieve (parseOptionalMAC_block copies mac payload)]
    rfl

theorem parse_withBinding (absent : mac.present = false)
    (bound : values.bindingValues = some binding) (lt : binding.dataRate < 65536) (payload : List UInt8) :
    ∃ dataMsgType, parseTransportHeader true true (assembleTransportHeader mac values ++ payload) =
      .ok (⟨{ sentValues values with
        bindingValues := some { binding with dataRate := binding.dataRate / 256 * 256 } }, true, none, dataMsgType⟩,
        payload) := by
  have options : optionBytes mac values ++ payload = assembleTransportHeaderBinding binding ++ payload := by
    simp [optionBytes, absent, bound]
  obtain ⟨dataMsgType, read⟩ := parseDataBinding_with (sentValues values).type lt payload
  refine ⟨dataMsgType, ?_⟩
  rw [parseTransportHeader_assembled, options, bound]
  simp only [isSome_some, if_true, parseOptions, absent, keepAlive_sent]
  rw [bind_retrieve read]
  rfl

theorem parse_withBoth (present : mac.present = true) (bound : values.bindingValues = some binding)
    (payload : List UInt8) :
    parseTransportHeader true true (assembleTransportHeader mac values ++ payload) =
      .error (.invalidFormat "Wrong Binding Data Field Length") := by
  have options : optionBytes mac values ++ payload =
      macBlock mac ++ (assembleTransportHeaderBinding binding ++ payload) := by
    simp [optionBytes, present, bound]
  rw [parseTransportHeader_assembled, options, bound]
  simp only [isSome_some, if_true, parseOptions]
  exact bind_error (parseDataBinding_macBlock _ mac _)

theorem RoundTrips.of_parsed {payload : List UInt8} {parsed : ParsedHeader} (encodable : values.Encodable)
    (read : parseTransportHeader true true (assembleTransportHeader mac values ++ payload) = .ok (parsed, payload))
    (fields : parsed.values = { sentValues values with bindingValues := values.bindingValues })
    (radioMac : parsed.radioMac = if mac.present then some mac.toList else none) : RoundTrips mac values payload := by
  refine ⟨parsed, read, ?_, ?_, ?_, ?_, ?_, radioMac⟩
  · rw [fields]
    exact Nat.mod_eq_of_lt encodable.isFragment
  · rw [fields]
    exact Nat.mod_eq_of_lt encodable.last
  · rw [fields]
    exact Nat.mod_eq_of_lt encodable.fragmentID
  · rw [fields]
    exact Nat.mod_eq_of_lt encodable.fragmentOffset
  · rw [fields]

/-- The header of a data packet is read back exactly when it has no binding, or a binding without a MAC address whose
data rate has the lower byte 0. -/
theorem roundTrips_iff (mac : RadioMac) (values : HeaderValues) (payload : List UInt8) (encodable : values.Encodable) :
    RoundTrips mac values payload ↔
      ∀ binding ∈ values.bindingValues, mac.present = false ∧ binding.dataRate % 256 = 0 := by
  cases bound : values.bindingValues with
  | none =>
    obtain ⟨dataMsgType, read⟩ := parse_withoutBinding true true mac bound payload
    rw [Bool.and_true] at read
    refine iff_of_true (.of_parsed encodable read ?_ rfl) (by simp)
    rw [bound]
    rfl
  | some binding =>
    have lt := encodable.dataRate binding bound
    simp only [mem_some_iff, forall_eq']
    cases present : mac.present with
    | true =>
      refine iff_of_false ?_ (by simp)
      rintro ⟨parsed, read, -⟩
      rw [parse_withBoth present bound payload] at read
      exact absurd read nofun
    | false =>
      obtain ⟨dataMsgType, read⟩ := parse_withBinding present bound lt payload
      constructor
      · rintro ⟨parsed, read', -, -, -, -, same, -⟩
        rw [read] at read'
        cases read'
        have rate : binding.dataRate / 256 * 256 = binding.dataRate := by
          have := congrArg BindingValues.dataRate (some.inj (same.trans bound))
          exact this
        exact ⟨rfl, by omega⟩
      · rintro ⟨-, lower⟩
        have rate : binding.dataRate / 256 * 256 = binding.dataRate := by omega
        rw [rate] at read
        refine .of_parsed encodable read ?_ (by rw [present]; rfl)
        rw [bound]

def slowFrame : HeaderValues where
  payloadType := 0
  type := 1
  isFragment := 0
  last := 0
  fragmentID := 0
  fragmentOffset := 0
  keepAlive := 0
  bindingValues := some ⟨200, 30, 1⟩

def noRadioMac : RadioMac := List.Vector.replicate 6 0

theorem roundTrips_iff_slowFrame : slowFrame.Encodable ∧ (RoundTrips noRadioMac slowFrame [] ↔
      ∀ binding ∈ slowFrame.bindingValues, noRadioMac.present = false ∧ binding.dataRate % 256 = 0) := by
  have encodable : slowFrame.Encodable := ⟨by decide, by decide, by decide, by decide, by simp [slowFrame]⟩
  exact ⟨encodable, roundTrips_iff noRadioMac slowFrame [] encodable⟩

theorem slowFrame_rate :
    (parseTransportHeader true true (assembleTransportHeader noRadioMac slowFrame ++ [])).map
    (·.1.values.bindingValues) =
      .ok (some ⟨200, 30, 0⟩) := by
  decide +kernel

theorem not_roundTrips_slowFrame : ¬ RoundTrips noRadioMac slowFrame [] := by
  rintro ⟨parsed, read, -, -, -, -, same, -⟩
  have rate := slowFrame_rate
  rw [read] at rate
  have : (some ⟨200, 30, 0⟩ : Option BindingValues) = some ⟨200, 30, 1⟩ := (Except.ok.inj rate).symm.trans same
  exact absurd this (by decide)

end OpenWifi.OpenCapwap
