import OpenWifi.CapwapElement.AcIpv4List
import Mathlib.Data.List.TakeWhile

/-!
# Elements with sub-elements

The AC Descriptor, the WTP Descriptor and the WTP Board Data end with sub-elements of any length, one behind the other
until nothing is left.
-/

namespace OpenWifi.CapwapElement

open Reader (evalExact)
open List CapwapProtocol PacketRxmng

variable {ε : Type*}

/-- The reader reads only what is there, and gives the value and leaves nothing exactly under the condition. -/
def Gives (reader : Reader ε) (bytes : List UInt8) (v : ε) (condition : Prop) : Prop :=
  ∃ result rest, reader.evalExact bytes = some (result, rest) ∧ ((result = some v ∧ rest = []) ↔ condition)

variable {bytes : List UInt8}

theorem gives_none {reader : Reader ε} {condition : Prop} (v : ε)
    (eval : ∃ rest, reader.evalExact bytes = some (none, rest)) (not : ¬condition) : Gives reader bytes v condition :=
  ⟨none, eval.choose, eval.choose_spec, by simp [not]⟩

/-! ## The loop over the sub-elements -/

structure Subelement where
  vendor : UInt32
  type : UInt16
  data : List UInt8
  deriving DecidableEq

structure Format where
  vendors : Bool
  types : UInt16 → Bool
  checksHeader : Bool
  checksRest : Bool
  strings : Bool

namespace Format

def width (f : Format) : ℕ := if f.vendors then 8 else 4

/-- What the loop of the `create` function writes for a sub-element. -/
def write (f : Format) (s : Subelement) : List UInt8 :=
  (if f.vendors then be32 s.vendor.toNat else []) ++ be16 s.type.toNat ++ be16 s.data.length ++ s.data

def readVendor (f : Format) (next : UInt32 → Reader ε) : Reader ε := if f.vendors then readU32 next else next 0

/-- The loop of the `parsing` function refuses a sub-element, with so many bytes behind its header. -/
def refuses (f : Format) (type length : UInt16) (left : ℕ) : Prop :=
  f.types type = false ∨ f.checksRest ∧ left = 0 ∨ 1024 < left ∨ left < length.toNat
  deriving Decidable

/-- The loop of the `parsing` function. -/
def readSubelements (f : Format) : ℕ → (List Subelement → Reader ε) → Reader ε
  | 0, _ => .done none
  | fuel + 1, next => .ready fun ready =>
    if ready = 0 then next []
    else if f.checksHeader ∧ ready < f.width then .done none
    else f.readVendor fun vendor => readU16 fun type => readU16 fun length => .ready fun left =>
      if f.refuses type length left then .done none
      else .block length.toNat fun data => readSubelements f fuel fun rest =>
        next (⟨vendor, type, if f.strings then data.takeWhile (· ≠ 0) else data⟩ :: rest)

def readAll (f : Format) (next : List Subelement → Reader ε) : Reader ε :=
  .ready fun ready => f.readSubelements (ready + 1) next

structure Fits (f : Format) (s : Subelement) : Prop where
  vendor : f.vendors = false → s.vendor = 0
  pos : 0 < s.data.length
  le : s.data.length ≤ 1024
  string : f.strings = true → ∀ b ∈ s.data, b ≠ 0

def Accepts (f : Format) (items : List Subelement) : Prop :=
  items = [] ∨ (∀ s ∈ items, f.types s.type) ∧ (items.flatMap f.write).length ≤ f.width + 1024

variable {f : Format} {s : Subelement} {items : List Subelement} {next : List Subelement → Reader ε} {k : ℕ}

theorem accepts_iff (f : Format) (some : items ≠ []) (types : ∀ s ∈ items, f.types s.type) :
    f.Accepts items ↔ (items.flatMap f.write).length ≤ f.width + 1024 :=
  ⟨fun accepts => (accepts.resolve_left some).2, fun short => .inr ⟨types, short⟩⟩

theorem length_write (f : Format) (s : Subelement) : (f.write s).length = f.width + s.data.length := by
  unfold write width
  cases f.vendors <;> simp <;> omega

theorem evalExact_readVendor (f : Format) {s : Subelement} (fits : f.Fits s) (next : UInt32 → Reader ε)
    (rest : List UInt8) : (f.readVendor next).evalExact ((if f.vendors then be32 s.vendor.toNat else []) ++ rest) =
      (next s.vendor).evalExact rest := by
  unfold readVendor
  cases vendors : f.vendors with
  | true => exact evalExact_readU32 next s.vendor rest
  | false => rw [fits.vendor vendors]; rfl

theorem evalExact_readSubelements_cons (fits : f.Fits s) (rest : List UInt8) :
    (f.readSubelements (k + 1) next).evalExact (f.write s ++ rest) =
      if f.types s.type ∧ s.data.length + rest.length ≤ 1024 then
        (f.readSubelements k fun items => next (s :: items)).evalExact rest else some (none, s.data ++ rest) := by
  have pos := fits.pos
  have le := fits.le
  have total : (f.write s ++ rest).length = f.width + (s.data.length + rest.length) := by
    rw [length_append, length_write, Nat.add_assoc]
  have toNat : (UInt16.ofNat s.data.length).toNat = s.data.length := by
    rw [UInt16.toNat_ofNat']
    omega
  have enough : ¬(f.checksHeader = true ∧ (f.write s ++ rest).length < f.width) := by omega
  rw [readSubelements, evalExact, if_neg (by omega), if_neg enough, write]
  simp only [append_assoc]
  rw [evalExact_readVendor f fits, evalExact_readU16]
  nth_rewrite 1 [← toNat]
  rw [evalExact_readU16, evalExact, length_append]
  have kept : (if f.strings then s.data.takeWhile (· ≠ 0) else s.data) = s.data := by
    split
    next strings => exact takeWhile_eq_self_iff.2 (by simpa using fits.string strings)
    · rfl
  by_cases accepted : f.types s.type ∧ s.data.length + rest.length ≤ 1024
  · have passes : ¬f.refuses s.type (UInt16.ofNat s.data.length) (s.data.length + rest.length) := by
      rintro (unknown | ⟨-, empty⟩ | long | short)
      · cases accepted.1.symm.trans unknown
      · omega
      · omega
      · omega
    rw [if_neg passes, if_pos accepted, evalExact_block toNat.symm, kept]
  · have refused : f.refuses s.type (UInt16.ofNat s.data.length) (s.data.length + rest.length) := by
      unfold refuses
      cases known : f.types s.type with
      | false => exact .inl rfl
      | true => exact .inr (.inr (.inl (by simp [known] at accepted; omega)))
    rw [if_pos refused, if_neg accepted, evalExact]

theorem evalExact_accepted (fits : ∀ s ∈ items, f.Fits s) (accepts : f.Accepts items) (enough : items.length < k) :
    (f.readSubelements k next).evalExact (items.flatMap f.write) = (next items).evalExact [] := by
  obtain ⟨k, rfl⟩ := Nat.exists_eq_add_one_of_ne_zero (Nat.ne_zero_of_lt enough)
  induction items generalizing k next with
  | nil => rfl
  | cons s items ih =>
    obtain ⟨types, short⟩ := accepts.resolve_left nofun
    rw [flatMap_cons, length_append, length_write] at short
    rw [length_cons] at enough
    obtain ⟨k, rfl⟩ := Nat.exists_eq_add_one_of_ne_zero (show k ≠ 0 by omega)
    rw [flatMap_cons, evalExact_readSubelements_cons (fits s mem_cons_self), if_pos ⟨types s mem_cons_self, by omega⟩]
    exact ih (fun x mem => fits x (mem_cons_of_mem _ mem))
      (.inr ⟨fun x mem => types x (mem_cons_of_mem _ mem), by omega⟩) k (by omega)

theorem evalExact_refused (fits : ∀ s ∈ items, f.Fits s) (refused : ¬f.Accepts items) (enough : items.length < k) :
    ∃ rest, (f.readSubelements k next).evalExact (items.flatMap f.write) = some (none, rest) := by
  induction items generalizing k next with
  | nil => exact absurd (.inl rfl) refused
  | cons s items ih =>
    obtain ⟨k, rfl⟩ := Nat.exists_eq_add_one_of_ne_zero (Nat.ne_zero_of_lt enough)
    rw [flatMap_cons, evalExact_readSubelements_cons (fits s mem_cons_self)]
    split
    next accepted =>
      refine ih (fun x mem => fits x (mem_cons_of_mem _ mem)) (fun accepts => refused (.inr ⟨?_, ?_⟩))
        (Nat.lt_of_succ_lt_succ enough)
      · intro x mem
        rcases mem_cons.1 mem with rfl | mem
        · exact accepted.1
        · rcases accepts with rfl | ⟨types, -⟩
          · exact absurd mem not_mem_nil
          · exact types x mem
      · rw [flatMap_cons, length_append, length_write]
        omega
    · exact ⟨_, rfl⟩

theorem length_le_flatMap_write (f : Format) (items : List Subelement) :
    items.length ≤ (items.flatMap f.write).length := by
  induction items with
  | nil => exact Nat.le_refl _
  | cons s items ih =>
    have wide : 1 ≤ f.width := by unfold width; split <;> omega
    rw [flatMap_cons, length_append, length_cons, length_write]
    omega

theorem yields_readVendor {P : ε → Prop} {next : UInt32 → Reader ε} (h : ∀ n, (next n).Yields P) :
    (f.readVendor next).Yields P := by
  unfold readVendor
  split
  · exact fun bytes => h _
  · exact h 0

theorem gives_readAll (fits : ∀ s ∈ items, f.Fits s) (value : List Subelement → ε) :
    Gives (f.readAll fun items => .done (some (value items))) (items.flatMap f.write) (value items)
      (f.Accepts items) := by
  have enough := Nat.lt_succ_of_le (length_le_flatMap_write f items)
  by_cases accepts : f.Accepts items
  · exact ⟨some (value items), [], evalExact_accepted fits accepts enough, by simp [accepts]⟩
  · exact gives_none _ (evalExact_refused fits accepts enough) accepts

theorem yields_readSubelements {P : ε → Prop} (k : ℕ) (h : ∀ items, (next items).Yields P) :
    (f.readSubelements k next).Yields P := by
  induction k generalizing next with
  | zero => exact nofun
  | succ k ih =>
    intro ready
    dsimp only
    split
    · exact h []
    · split
      · exact nofun
      · refine yields_readVendor fun vendor => yields_readU16 fun type => yields_readU16 fun length left => ?_
        dsimp only
        split
        · exact nofun
        · exact fun data => ih fun items => h _

end Format

/-! ## The three elements -/

/-- `struct capwap_acdescriptor_element`. -/
structure AcDescriptor where
  stations : UInt16
  stationlimit : UInt16
  activewtp : UInt16
  maxwtp : UInt16
  security : UInt8
  rmacfield : UInt8
  dtlspolicy : UInt8
  descsubelement : List Subelement
  deriving DecidableEq

def acFormat : Format where
  vendors := true
  types type := type = 4 || type = 5
  checksHeader := false
  checksRest := false
  strings := false

/-- `capwap_acdescriptor_element_create`. -/
def AcDescriptor.create (d : AcDescriptor) : List UInt8 :=
  be16 d.stations.toNat ++ (be16 d.stationlimit.toNat ++ (be16 d.activewtp.toNat ++ (be16 d.maxwtp.toNat ++
    (d.security :: d.rmacfield :: 0 :: d.dtlspolicy :: d.descsubelement.flatMap acFormat.write))))

/-- `capwap_acdescriptor_element_parsing`. -/
def acdescriptorParsing : Reader AcDescriptor := .ready fun ready =>
  if ready < 12 then .done none else
  readU16 fun stations => readU16 fun stationlimit => readU16 fun activewtp => readU16 fun maxwtp =>
  if stationlimit < stations then .done none
  else if maxwtp < activewtp then .done none else
  readU8 fun security => readU8 fun rmacfield => readU8 fun _ => readU8 fun dtlspolicy =>
  if security &&& ~~~6 ≠ 0 then .done none
  else if dtlspolicy &&& ~~~6 ≠ 0 then .done none
  else if rmacfield ≠ 1 ∧ rmacfield ≠ 2 then .done none else
  acFormat.readAll fun descsubelement => .done (some
    ⟨stations, stationlimit, activewtp, maxwtp, security, rmacfield, dtlspolicy, descsubelement⟩)

/-- The assertions of `capwap_acdescriptor_element_create`, and sub-elements of 1 to 1024 bytes. -/
structure AcDescriptor.Writable (d : AcDescriptor) : Prop where
  security : d.security &&& ~~~6 = 0
  dtlspolicy : d.dtlspolicy &&& ~~~6 = 0
  rmacfield : d.rmacfield = 1 ∨ d.rmacfield = 2
  fits : ∀ s ∈ d.descsubelement, acFormat.Fits s

theorem AcDescriptor.gives_create {d : AcDescriptor} (w : d.Writable) : Gives acdescriptorParsing d.create d
      (d.stations ≤ d.stationlimit ∧ d.activewtp ≤ d.maxwtp ∧ acFormat.Accepts d.descsubelement) := by
  have long : ¬d.create.length < 12 := by
    simp [create]
    omega
  by_cases stations : d.stationlimit < d.stations
  · refine gives_none d ⟨d.create.drop 8, ?_⟩ fun h => absurd h.1 (UInt16.not_le.2 stations)
    rw [acdescriptorParsing, evalExact, if_neg long, create]
    simp only [evalExact_readU16, if_pos stations]
    rfl
  · by_cases wtps : d.maxwtp < d.activewtp
    · refine gives_none d ⟨d.create.drop 8, ?_⟩ fun h => absurd h.2.1 (UInt16.not_le.2 wtps)
      rw [acdescriptorParsing, evalExact, if_neg long, create]
      simp only [evalExact_readU16, if_neg stations, if_pos wtps]
      rfl
    · obtain ⟨result, rest, eval, iff⟩ := Format.gives_readAll w.fits fun descsubelement : List Subelement =>
        { d with descsubelement := descsubelement }
      refine ⟨result, rest, ?_, iff.trans ?_⟩
      · have rmac : ¬(d.rmacfield ≠ 1 ∧ d.rmacfield ≠ 2) := fun h => w.rmacfield.elim h.1 h.2
        rw [acdescriptorParsing, evalExact, if_neg long, create]
        simp only [evalExact_readU16, if_neg stations, if_neg wtps, evalExact_readU8, w.security, w.dtlspolicy,
          if_neg rmac]
        exact eval
      · exact ⟨fun h => ⟨UInt16.not_lt.1 stations, UInt16.not_lt.1 wtps, h⟩, fun h => h.2.2⟩

/-- `struct capwap_wtpdescriptor_encrypt_subelement`. -/
structure EncryptSubelement where
  wbid : UInt8
  capabilities : UInt16
  deriving DecidableEq

/-- `struct capwap_wtpdescriptor_element`. -/
structure WtpDescriptor where
  maxradios : UInt8
  radiosinuse : UInt8
  encryptsubelement : List EncryptSubelement
  descsubelement : List Subelement
  deriving DecidableEq

def wtpFormat : Format where
  vendors := true
  types type := type ≤ 3
  checksHeader := true
  checksRest := true
  strings := true

/-- `capwap_wtpdescriptor_element_create`; the number of encryption sub-elements is written in 8 bits. -/
def WtpDescriptor.create (d : WtpDescriptor) : List UInt8 :=
  d.maxradios :: d.radiosinuse :: UInt8.ofNat d.encryptsubelement.length ::
    (d.encryptsubelement.flatMap (fun e => e.wbid :: be16 e.capabilities.toNat) ++
      d.descsubelement.flatMap wtpFormat.write)

def readEncrypt (next : EncryptSubelement → Reader ε) : Reader ε := .ready fun ready =>
  if ready < 3 then .done none else
  readU8 fun wbid => readU16 fun capabilities =>
  if wbid &&& 0x1f ≠ wbid then .done none else next ⟨wbid, capabilities⟩

/-- `capwap_wtpdescriptor_element_parsing`. -/
def wtpdescriptorParsing : Reader WtpDescriptor := .ready fun ready =>
  if ready < 33 then .done none else
  readU8 fun maxradios => readU8 fun radiosinuse => readU8 fun encryptlength =>
  if encryptlength = 0 then .done none
  else if maxradios < radiosinuse then .done none else
  readMany readEncrypt encryptlength.toNat fun encryptsubelement =>
  wtpFormat.readAll fun descsubelement => .done (some ⟨maxradios, radiosinuse, encryptsubelement, descsubelement⟩)

/-- The assertions of `capwap_wtpdescriptor_element_create`, and sub-elements of 1 to 1024 bytes. -/
structure WtpDescriptor.Writable (d : WtpDescriptor) : Prop where
  radios : d.radiosinuse ≤ d.maxradios
  encrypts : d.encryptsubelement ≠ []
  descs : d.descsubelement ≠ []
  wbids : ∀ e ∈ d.encryptsubelement, e.wbid &&& 0x1f = e.wbid
  types : ∀ s ∈ d.descsubelement, wtpFormat.types s.type
  fits : ∀ s ∈ d.descsubelement, wtpFormat.Fits s
  long : 33 ≤ d.create.length

theorem evalExact_readEncrypt {e : EncryptSubelement} (wbid : e.wbid &&& 0x1f = e.wbid)
    (next : EncryptSubelement → Reader ε) (rest : List UInt8) :
    (readEncrypt next).evalExact ((e.wbid :: be16 e.capabilities.toNat) ++ rest) = (next e).evalExact rest := by
  rw [readEncrypt, evalExact, if_neg (by simp), cons_append, evalExact_readU8, evalExact_readU16,
    if_neg (not_not_intro wbid)]

theorem yields_readEncrypt {P : ε → Prop} (next : EncryptSubelement → Reader ε) (h : ∀ e, (next e).Yields P) :
    (readEncrypt next).Yields P := by
  intro ready
  dsimp only
  split
  · exact nofun
  · refine yields_readU8 fun wbid => yields_readU16 fun capabilities => ?_
    split
    · exact nofun
    · exact h _

theorem yields_wtpdescriptorParsing : wtpdescriptorParsing.Yields (·.encryptsubelement.length < 256) := by
  intro ready
  dsimp only
  split
  · exact nofun
  · refine yields_readU8 fun maxradios => yields_readU8 fun radiosinuse => yields_readU8 fun encryptlength => ?_
    split
    · exact nofun
    · split
      · exact nofun
      · refine yields_readMany yields_readEncrypt _ fun encrypts length ready => ?_
        refine Format.yields_readSubelements _ fun descs v eq => ?_
        rw [← Option.some.inj eq, length]
        exact encryptlength.toNat_lt

theorem WtpDescriptor.gives_create {d : WtpDescriptor} (w : d.Writable) (few : d.encryptsubelement.length < 256) :
    Gives wtpdescriptorParsing d.create d (wtpFormat.Accepts d.descsubelement) := by
  have count : (UInt8.ofNat d.encryptsubelement.length).toNat = d.encryptsubelement.length := by
    rw [UInt8.toNat_ofNat', Nat.mod_eq_of_lt few]
  have nonzero : UInt8.ofNat d.encryptsubelement.length ≠ 0 := by
    intro zero
    rw [zero] at count
    exact w.encrypts (length_eq_zero_iff.1 count.symm)
  obtain ⟨result, rest, eval, iff⟩ := Format.gives_readAll w.fits fun descsubelement : List Subelement =>
    { d with descsubelement := descsubelement }
  refine ⟨result, rest, ?_, iff⟩
  rw [wtpdescriptorParsing, evalExact, if_neg (Nat.not_lt.2 w.long), create]
  simp only [evalExact_readU8, if_neg nonzero, if_neg (UInt8.not_lt.2 w.radios), count]
  rw [evalExact_readMany fun e mem => evalExact_readEncrypt (w.wbids e mem)]
  exact eval

/-- `struct capwap_wtpboarddata_element`. -/
structure WtpBoardData where
  vendor : UInt32
  boardsubelement : List Subelement
  deriving DecidableEq

def boardFormat : Format where
  vendors := false
  types type := type ≤ 4
  checksHeader := false
  checksRest := true
  strings := false

/-- `capwap_wtpboarddata_element_create`. -/
def WtpBoardData.create (d : WtpBoardData) : List UInt8 :=
  be32 d.vendor.toNat ++ d.boardsubelement.flatMap boardFormat.write

/-- `capwap_wtpboarddata_element_parsing`. -/
def wtpboarddataParsing : Reader WtpBoardData := .ready fun ready =>
  if ready < 14 then .done none else
  readU32 fun vendor =>
  if vendor = 0 then .done none else
  boardFormat.readAll fun boardsubelement => .done (some ⟨vendor, boardsubelement⟩)

/-- The assertions of `capwap_wtpboarddata_element_create`, and the minimum of the parser. -/
structure WtpBoardData.Writable (d : WtpBoardData) : Prop where
  vendor : d.vendor ≠ 0
  boards : d.boardsubelement ≠ []
  types : ∀ s ∈ d.boardsubelement, boardFormat.types s.type
  fits : ∀ s ∈ d.boardsubelement, boardFormat.Fits s
  long : 14 ≤ d.create.length

theorem WtpBoardData.gives_create {d : WtpBoardData} (w : d.Writable) :
    Gives wtpboarddataParsing d.create d (boardFormat.Accepts d.boardsubelement) := by
  obtain ⟨result, rest, eval, iff⟩ := Format.gives_readAll w.fits fun boardsubelement : List Subelement =>
    { d with boardsubelement := boardsubelement }
  refine ⟨result, rest, ?_, iff⟩
  rw [wtpboarddataParsing, evalExact, if_neg (Nat.not_lt.2 w.long), create, evalExact_readU32, if_neg w.vendor]
  exact eval

/-! ## Round trips -/

structure Delivers (rx : PacketRxmng) (bytes : List UInt8) : Prop where
  readable : rx.Readable
  allowed : rx.readerpacketallowed = bytes.length
  value : rx.stream.take bytes.length = bytes

def Returns (reader : Reader ε) (rx : PacketRxmng) (v : ε) : Prop :=
  ∃ rx', rx.runReader reader = some (some v, rx') ∧ rx'.readerpacketallowed = 0

theorem returns_iff {reader : Reader ε} {rx : PacketRxmng} {v : ε} {condition : Prop}
    (delivers : Delivers rx bytes) (gives : Gives reader bytes v condition) : Returns reader rx v ↔ condition := by
  obtain ⟨result, rest, eval, iff⟩ := gives
  have whole : rx.readerpacketallowed ≤ rx.stream.length := by
    have := congrArg List.length delivers.value
    rw [length_take] at this
    rw [delivers.allowed]
    omega
  have eval' : reader.evalExact (rx.stream.take rx.readerpacketallowed) = some (result, rest) := by
    rw [delivers.allowed, delivers.value, eval]
  obtain ⟨rx', run, le, after⟩ := runReader_of_evalExact delivers.readable whole eval'
  have allowed : rx'.readerpacketallowed = rest.length := by
    have := delivers.readable.allowed
    rw [after.allowed]
    omega
  rw [← iff]
  constructor
  · rintro ⟨rx'', run', zero⟩
    obtain ⟨rfl, rfl⟩ := Prod.mk.inj (Option.some.inj (run.symm.trans run'))
    exact ⟨rfl, length_eq_zero_iff.1 (allowed.symm.trans zero)⟩
  · rintro ⟨rfl, rfl⟩
    exact ⟨rx', run, allowed⟩

/-- The parsers return the values that were written exactly within these limits. -/
theorem subelements_returns_iff (ac : AcDescriptor) (wtp : WtpDescriptor) (board : WtpBoardData) (rx : PacketRxmng) :
    (ac.Writable → Delivers rx ac.create → (Returns acdescriptorParsing rx ac ↔
      ac.stations ≤ ac.stationlimit ∧ ac.activewtp ≤ ac.maxwtp ∧ (ac.descsubelement = [] ∨
        (∀ s ∈ ac.descsubelement, s.type = 4 ∨ s.type = 5) ∧ ac.create.length ≤ 12 + 8 + 1024))) ∧
    (wtp.Writable → Delivers rx wtp.create → (Returns wtpdescriptorParsing rx wtp ↔ wtp.encryptsubelement.length < 256 ∧
        wtp.create.length ≤ 3 + 3 * wtp.encryptsubelement.length + 8 + 1024)) ∧
    (board.Writable → Delivers rx board.create → (Returns wtpboarddataParsing rx board ↔
      board.create.length ≤ 4 + 4 + 1024)) := by
  refine ⟨fun w delivers => ?_, fun w delivers => ?_, fun w delivers => ?_⟩
  · have length : ac.create.length = 12 + (ac.descsubelement.flatMap acFormat.write).length := by
      simp only [AcDescriptor.create, length_append, length_be16, length_cons]
      omega
    have types (s : Subelement) : acFormat.types s.type = true ↔ s.type = 4 ∨ s.type = 5 := by simp [acFormat]
    refine (returns_iff delivers (AcDescriptor.gives_create w)).trans ?_
    rw [length, Format.Accepts, show acFormat.width = 8 from rfl, Nat.add_assoc, Nat.add_le_add_iff_left]
    simp [types]
  · have length : wtp.create.length =
        3 + 3 * wtp.encryptsubelement.length + (wtp.descsubelement.flatMap wtpFormat.write).length := by
      have encrypts : (wtp.encryptsubelement.flatMap fun e => e.wbid :: be16 e.capabilities.toNat).length =
          3 * wtp.encryptsubelement.length := by
        rw [length_flatMap]
        simp [Nat.mul_comm]
      simp only [WtpDescriptor.create, length_append, length_cons, encrypts]
      omega
    by_cases few : wtp.encryptsubelement.length < 256
    · refine (returns_iff delivers (WtpDescriptor.gives_create w few)).trans ?_
      rw [length, wtpFormat.accepts_iff w.descs w.types, show wtpFormat.width = 8 from rfl]
      omega
    · refine ⟨?_, fun h => absurd h.1 few⟩
      rintro ⟨rx', run, -⟩
      exact absurd (yields_wtpdescriptorParsing.run run) few
  · have length : board.create.length = 4 + (board.boardsubelement.flatMap boardFormat.write).length := by
      rw [WtpBoardData.create, length_append, length_be32]
    refine (returns_iff delivers (WtpBoardData.gives_create w)).trans ?_
    rw [length, boardFormat.accepts_iff w.boards w.types, show boardFormat.width = 4 from rfl]
    omega

theorem delivers_elementValue (short : bytes.length < 65536) : Delivers (elementValue bytes) bytes :=
  ⟨readable_elementValue short, rfl, by simp [PacketRxmng.stream, ReadBlockFromPos.stream, elementValue]⟩

def acDescriptorOf (lengths : List ℕ) : AcDescriptor :=
  ⟨0, 0, 0, 0, 4, 1, 2, lengths.map fun n => ⟨0, 4, List.replicate n 65⟩⟩

theorem writable_acDescriptorOf {lengths : List ℕ} (range : ∀ n ∈ lengths, 0 < n ∧ n ≤ 1024) :
    (acDescriptorOf lengths).Writable := by
  refine ⟨show (4 : UInt8) &&& ~~~6 = 0 by decide, show (2 : UInt8) &&& ~~~6 = 0 by decide, .inl rfl, fun s mem => ?_⟩
  obtain ⟨n, listed, rfl⟩ := mem_map.1 mem
  exact ⟨nofun, by simpa using (range n listed).1, by simpa using (range n listed).2, nofun⟩

theorem subelements_returns_iff_two :
    let wtp : WtpDescriptor := ⟨1, 1, [⟨1, 0⟩, ⟨2, 0⟩], [⟨0, 0, List.replicate 20 65⟩, ⟨0, 1, [66, 66]⟩]⟩
    let board : WtpBoardData := ⟨9, [⟨0, 0, List.replicate 8 65⟩, ⟨0, 1, [66]⟩]⟩
    Returns acdescriptorParsing (elementValue (acDescriptorOf [5, 7]).create) (acDescriptorOf [5, 7]) ∧
      Returns wtpdescriptorParsing (elementValue wtp.create) wtp ∧
      Returns wtpboarddataParsing (elementValue board.create) board := by
  intro wtp board
  have wtpWritable : wtp.Writable := by
    refine ⟨by decide, nofun, nofun, by decide, by decide, fun s mem => ?_, by decide⟩
    rcases mem_pair.1 mem with rfl | rfl <;> exact ⟨nofun, by decide, by decide, fun _ => by simp⟩
  have boardWritable : board.Writable := by
    refine ⟨by decide, nofun, by decide, fun s mem => ?_, by decide⟩
    rcases mem_pair.1 mem with rfl | rfl <;> exact ⟨fun _ => rfl, by decide, by decide, nofun⟩
  refine ⟨?_, ?_, ?_⟩
  · refine ((subelements_returns_iff (acDescriptorOf [5, 7]) wtp board _).1 (writable_acDescriptorOf (by decide))
      (delivers_elementValue (by decide))).2 ?_
    exact ⟨by decide, by decide, .inr ⟨by decide, by decide⟩⟩
  · exact ((subelements_returns_iff (acDescriptorOf [5, 7]) wtp board _).2.1 wtpWritable
      (delivers_elementValue (by decide))).2 (by decide)
  · exact ((subelements_returns_iff (acDescriptorOf [5, 7]) wtp board _).2.2 boardWritable
      (delivers_elementValue (by decide))).2 (by decide)

/-- An AC Descriptor with two sub-elements of 600 bytes is refused. -/
theorem acDescriptor_refused : (acDescriptorOf [600, 600]).Writable ∧ (acDescriptorOf [600, 600]).create.length = 1228 ∧
      ¬Returns acdescriptorParsing (elementValue (acDescriptorOf [600, 600]).create) (acDescriptorOf [600, 600]) := by
  have writable : (acDescriptorOf [600, 600]).Writable := writable_acDescriptorOf (by decide)
  have length : (acDescriptorOf [600, 600]).create.length = 1228 := by decide +kernel
  refine ⟨writable, length, fun returns => ?_⟩
  have accepts := ((returns_iff (delivers_elementValue (by omega)) (AcDescriptor.gives_create writable)).1 returns).2.2
  exact absurd (accepts.resolve_left nofun).2 (by decide +kernel)

end OpenWifi.CapwapElement
