import Mathlib.Data.BitVec
import OpenWifi.Lib.Bytes
import OpenWifi.Lib.Fuel
import OpenWifi.Bwctl.History
import OpenWifi.Bwctl.Usage

/-!
# The bandwidth query

`getBandwidthData` asks the kernel for the table of a rule, one buffer after the other.  The array of the result is
allocated again for every answer.
-/

namespace OpenWifi.Bwctl

open List Option UInt32

/-! ## Time zones -/

/-- The fields of `struct tm` that matter here. -/
structure ClockReading where
  mday : ℤ
  hour : ℤ
  min : ℤ
  mday_range : 1 ≤ mday ∧ mday ≤ 31
  hour_range : 0 ≤ hour ∧ hour ≤ 23
  min_range : 0 ≤ min ∧ min ≤ 59

structure Clock (m : Machine) where
  now : m.Time
  gmtime : m.Time → ClockReading
  localtime : m.Time → ClockReading

variable {m : Machine}

/-- `get_minutes_west`. -/
def Clock.getMinutesWest (clock : Clock m) (time : m.Time) : ℤ :=
  let utc := clock.gmtime time
  let tz := clock.localtime time
  let utcDay := if utc.mday < tz.mday - 1 then tz.mday + 1 else utc.mday
  let tzDay := if tz.mday < utcDay - 1 then utcDay + 1 else tz.mday
  24 * 60 * utcDay + 60 * utc.hour + utc.min - (24 * 60 * tzDay + 60 * tz.hour + tz.min)

def Clock.shifted (clock : Clock m) (time : m.Time) : m.Time :=
  time + BitVec.ofInt m.timeBits (60 * (clock.getMinutesWest time - clock.getMinutesWest clock.now))

theorem Clock.abs_getMinutesWest (clock : Clock m) (time : m.Time) : |clock.getMinutesWest time| < 50000 := by
  have := (clock.gmtime time).mday_range
  have := (clock.gmtime time).hour_range
  have := (clock.gmtime time).min_range
  have := (clock.localtime time).mday_range
  have := (clock.localtime time).hour_range
  have := (clock.localtime time).min_range
  rw [abs_lt]
  simp only [Clock.getMinutesWest]
  split_ifs <;> constructor <;> omega

theorem Machine.add_ofInt_eq_self {z : ℤ} (small : -2 ^ 31 ≤ z ∧ z < 2 ^ 31) {time : m.Time} :
    time + BitVec.ofInt m.timeBits z = time ↔ z = 0 := by
  have wide : (2 : ℤ) ^ 31 ≤ 2 ^ (m.timeBits - 1) := by
    rcases m.time_size with size | size <;> simp [size]
  have positive : 0 < m.timeBits := by
    rcases m.time_size with size | size <;> omega
  rw [BitVec.add_right_eq_self]
  constructor
  · intro zero
    have value := congrArg BitVec.toInt zero
    rwa [BitVec.toInt_ofInt_eq_self positive (by omega) (by omega), BitVec.toInt_zero] at value
  · rintro rfl
    rfl

theorem Clock.shifted_eq_iff (clock : Clock m) (time : m.Time) :
    clock.shifted time = time ↔ clock.getMinutesWest time = clock.getMinutesWest clock.now := by
  have here := abs_lt.1 (clock.abs_getMinutesWest clock.now)
  have there := abs_lt.1 (clock.abs_getMinutesWest time)
  rw [Clock.shifted, Machine.add_ofInt_eq_self (by omega)]
  omega

/-! ## The kernel -/

structure KernelEntry where
  ip : UInt32
  bw : UInt64
  numNodes : UInt32
  firstStart : UInt64
  firstEnd : UInt64
  lastEnd : UInt64
  historyBws : List UInt64
  nodes : historyBws.length = numNodes.toNat

structure Rule where
  entries : List KernelEntry
  resetInterval : UInt64
  resetTime : UInt64
  isConstantInterval : UInt8
  few : entries.length < 2 ^ 32

structure Request where
  ip : UInt32
  index : UInt32
  history : UInt8
  id : List UInt8
  deriving DecidableEq

def Request.ofBuffer (m : Machine) (buf : List UInt8) : Request where
  ip := ofNat (m.order.value (buf.take 4))
  index := ofNat (m.order.value ((buf.drop 4).take 4))
  history := buf.getD 8 0
  id := ((buf.drop 9).take 50).takeWhile (· ≠ 0)

def KernelEntry.block (m : Machine) (history : UInt8) (e : KernelEntry) : List UInt8 :=
  if history = 0 then m.uint32 e.ip ++ m.uint64 e.bw
  else m.uint32 e.ip ++ m.uint32 e.numNodes ++ m.uint64 e.firstStart ++ m.uint64 e.firstEnd ++ m.uint64 e.lastEnd ++
    e.historyBws.flatMap m.uint64

def Rule.matching (rule : Rule) (ip : UInt32) : List KernelEntry :=
  if ip = 0 then rule.entries else rule.entries.filter (·.ip = ip)

def bandwidthQueryLength : ℕ := 16384

/-- The tables of the rules, how many entries the kernel puts into an answer, at least one and no more than fit, and
what it leaves in the rest of the buffer. -/
structure Kernel (m : Machine) where
  rules : List UInt8 → Option Rule
  perBuffer : Request → ℕ
  spare : Request → List UInt8
  perBuffer_pos : ∀ request, 1 ≤ perBuffer request
  fits : ∀ request rule, rules request.id = some rule →
    30 + ((((rule.matching request.ip).drop request.index.toNat).take (perBuffer request)).flatMap
      (KernelEntry.block m request.history)).length ≤ bandwidthQueryLength

def Kernel.answered (kernel : Kernel m) (rule : Rule) (request : Request) : List KernelEntry :=
  ((rule.matching request.ip).drop request.index.toNat).take (kernel.perBuffer request)

def Kernel.filled (kernel : Kernel m) (request : Request) (bytes : List UInt8) : List UInt8 :=
  bytes ++ (kernel.spare request ++ List.replicate bandwidthQueryLength 0).take (bandwidthQueryLength - bytes.length)

/-- The answer to `BANDWIDTH_GET`; a rule that does not exist gives an error code. -/
def Kernel.answer (kernel : Kernel m) (request : Request) : List UInt8 :=
  match kernel.rules request.id with
  | none => kernel.filled request [1]
  | some rule =>
    let total := (rule.matching request.ip).length
    let entries := kernel.answered rule request
    kernel.filled request <|
      0 :: (m.uint32 (ofNat total) ++ m.uint32 request.index ++ m.uint32 (ofNat entries.length) ++
        m.uint64 rule.resetInterval ++ m.uint64 rule.resetTime ++ [rule.isConstantInterval] ++
        entries.flatMap (KernelEntry.block m request.history))

/-! ## The query -/

inductive Cell (m : Machine)
  | usage (e : IpBw)
  | history (h : IpBwHistory m)

def Cell.ip : Cell m → UInt32
  | .usage e => e.ip
  | .history h => h.ip

theorem length_no_nodes : ([] : List UInt64).length = (0 : UInt32).toNat := rfl

theorem length_times {numNodes : UInt32} (bws : { bws : List UInt64 // bws.length = numNodes.toNat }) :
    bws.val.length = numNodes.toNat := bws.property

/-- An element of the array after `memset`. -/
def zeroCell (m : Machine) (getHistory : UInt8) : Cell m :=
  if getHistory = 0 then .usage ⟨0, 0⟩
  else .history {
    ip := 0
    numNodes := 0
    resetInterval := 0
    resetTime := 0
    isConstantInterval := 0
    firstStart := 0
    firstEnd := 0
    lastEnd := 0
    historyBws := []
    nodes := length_no_nodes }

/-- `parse_returned_ip_data`, at the place of a block. -/
def parseReturnedIpData (clock : Clock m) (getHistory : UInt8) (resetInterval resetTime : UInt64)
    (isConstantInterval : UInt8) : FileReader (Cell m) := do
  let ip ← m.readUInt32
  if getHistory = 0 then
    let bw ← m.readUInt64
    return .usage ⟨ip, bw⟩
  else
    let numNodes ← m.readUInt32
    let firstStart ← m.readUInt64
    let firstEnd ← m.readUInt64
    let lastEnd ← m.readUInt64
    let bws ← readTimes m.readUInt64 numNodes.toNat
    return .history {
      ip := ip
      numNodes := numNodes
      resetInterval := m.toTime resetInterval
      resetTime := m.toTime resetTime
      isConstantInterval := isConstantInterval
      firstStart := clock.shifted (m.toTime firstStart)
      firstEnd := clock.shifted (m.toTime firstEnd)
      lastEnd := clock.shifted (m.toTime lastEnd)
      historyBws := bws.val
      nodes := length_times bws }

structure Answer (m : Machine) where
  total : UInt32
  number : UInt32
  cells : List (Cell m)

def readAnswer (clock : Clock m) (getHistory : UInt8) : FileReader (Answer m) := do
  let _error ← m.readUInt8
  let total ← m.readUInt32
  let _start ← m.readUInt32
  let number ← m.readUInt32
  let resetInterval ← m.readUInt64
  let resetTime ← m.readUInt64
  let isConstantInterval ← m.readUInt8
  let cells ← readTimes (parseReturnedIpData clock getHistory resetInterval resetTime isConstantInterval) number.toNat
  return ⟨total, number, cells.val⟩

def store (array : List (Cell m)) (index : ℕ) (cells : List (Cell m)) : Option (List (Cell m)) :=
  if cells = [] ∨ index + cells.length ≤ array.length then some (writeAt array index cells) else none

/-- The variables of the loop.  `asked` is a record of the requests, each with the number of elements stored before. -/
structure QueryState (m : Machine) where
  buf : List UInt8
  data : List (Cell m)
  numIps : ℕ
  dataIndex : ℕ
  asked : List (Request × ℕ)

structure QueryResult (m : Machine) where
  success : Bool
  numIps : ℕ
  data : List (Cell m)
  stored : ℕ
  asked : List (Request × ℕ)

/-- The loop of `get_bandwidth_data`.  The flag `data_initialized` is tested for every answer and never set. -/
def queryLoop (kernel : Kernel m) (clock : Clock m) (getHistory : UInt8) : ℕ → QueryState m → Option (QueryResult m)
  | 0, _ => none
  | fuel + 1, state =>
    let request := Request.ofBuffer m state.buf
    let buf := kernel.answer request
    let asked := state.asked ++ [(request, state.dataIndex)]
    if buf.getD 0 0 ≠ 0 then
      some ⟨false, state.numIps, state.data, state.dataIndex, asked⟩
    else do
      let (answer, _) ← (readAnswer clock getHistory).run buf
      let data ← store (List.replicate (answer.total + 1).toNat (zeroCell m getHistory)) state.dataIndex answer.cells
      let dataIndex := state.dataIndex + answer.cells.length
      let index := (Request.ofBuffer m buf).index + answer.number
      if index < answer.total then
        queryLoop kernel clock getHistory fuel
          ⟨writeAt buf 4 (m.uint32 index), data, answer.total.toNat, dataIndex, asked⟩
      else
        some ⟨true, answer.total.toNat, data, dataIndex, asked⟩

def requestBuffer (m : Machine) (ip : UInt32) (getHistory : UInt8) (id : List UInt8) : List UInt8 :=
  m.uint32 ip ++ (m.uint32 0 ++ getHistory :: (id ++ List.replicate (bandwidthQueryLength - 9 - id.length) 0))

/-- `get_bandwidth_data` with the lock held and the socket open, for an address or, with `0`, for all. -/
def getBandwidthData (kernel : Kernel m) (clock : Clock m) (id : List UInt8) (getHistory : UInt8) (ip : UInt32)
    (fuel : ℕ) : Option (QueryResult m) :=
  queryLoop kernel clock getHistory fuel ⟨requestBuffer m ip getHistory id, [], 0, 0, []⟩

/-- The element for an entry, with its times moved by `move`. -/
def Rule.cellWith (move : m.Time → m.Time) (getHistory : UInt8) (rule : Rule) (e : KernelEntry) : Cell m :=
  if getHistory = 0 then .usage ⟨e.ip, e.bw⟩
  else .history {
    ip := e.ip
    numNodes := e.numNodes
    resetInterval := m.toTime rule.resetInterval
    resetTime := m.toTime rule.resetTime
    isConstantInterval := rule.isConstantInterval
    firstStart := move (m.toTime e.firstStart)
    firstEnd := move (m.toTime e.firstEnd)
    lastEnd := move (m.toTime e.lastEnd)
    historyBws := e.historyBws
    nodes := e.nodes }

/-- The result is the table, every element stored from an answer; and every request was for the rule, from the first
entry that was not yet there. -/
structure QueryResult.Right (r : QueryResult m) (rule : Rule) (id : List UInt8) (getHistory : UInt8) : Prop where
  success : r.success = true
  numIps : r.numIps = rule.entries.length
  stored : r.stored = r.numIps
  data : r.data.take r.numIps = rule.entries.map (rule.cellWith (fun t => t) getHistory)
  asked : ∀ q ∈ r.asked, q.1.id = id ∧ q.1.index.toNat = q.2

/-! ## Fields of the buffer -/

@[simp] theorem Machine.length_uint32 (m : Machine) (x : UInt32) : (m.uint32 x).length = 4 := m.order.length_bytes 4 _

@[simp] theorem Machine.value_uint32 (m : Machine) (x : UInt32) : m.order.value (m.uint32 x) = x.toNat :=
  m.order.value_bytes_of_lt x.toNat_lt

theorem Request.ofBuffer_requestBuffer {id : List UInt8} (short : id.length < 50) (text : 0 ∉ id) (ip : UInt32)
    (getHistory : UInt8) : Request.ofBuffer m (requestBuffer m ip getHistory id) = ⟨ip, 0, getHistory, id⟩ := by
  have all : ∀ c ∈ id, (decide (c ≠ 0)) = true := fun c mem => decide_eq_true fun zero => text (zero ▸ mem)
  obtain ⟨k, rest⟩ : ∃ k, bandwidthQueryLength - 9 - id.length = k + 1 := ⟨16374 - id.length, by
    rw [bandwidthQueryLength]
    omega⟩
  have address : (requestBuffer m ip getHistory id).take 4 = m.uint32 ip := by
    simp [requestBuffer]
  have index : ((requestBuffer m ip getHistory id).drop 4).take 4 = m.uint32 0 := by
    simp [requestBuffer]
  have behind : (requestBuffer m ip getHistory id).drop 8 = getHistory :: (id ++ 0 :: List.replicate k 0) := by
    simp [requestBuffer, rest, drop_append, replicate_succ]
  have flag : (requestBuffer m ip getHistory id).getD 8 0 = getHistory := by
    have at_eight := congrArg (·[0]?) behind
    simp only [getElem?_drop] at at_eight
    rw [getD_eq_getElem?_getD, at_eight]
    rfl
  have word : (((requestBuffer m ip getHistory id).drop 9).take 50).takeWhile (· ≠ 0) = id := by
    obtain ⟨j, fifty⟩ : ∃ j, 50 - id.length = j + 1 := ⟨49 - id.length, by omega⟩
    have nine := congrArg (List.drop 1) behind
    rw [drop_drop] at nine
    rw [nine, drop_succ_cons, drop_zero, take_append, take_of_length_le (by omega), fifty,
      take_succ_cons, takeWhile_append_of_pos all, takeWhile_cons_of_neg (by simp), append_nil]
  rw [Request.ofBuffer, address, index, flag, word]
  simp

theorem Request.ofBuffer_writeAt {buf : List UInt8} (long : 8 ≤ buf.length) (index : UInt32) :
    (Request.ofBuffer m (writeAt buf 4 (m.uint32 index))).ip = (Request.ofBuffer m buf).ip ∧
      (Request.ofBuffer m (writeAt buf 4 (m.uint32 index))).index = index := by
  have front : (writeAt buf 4 (m.uint32 index)).take 4 = buf.take 4 := take_writeAt le_rfl (by omega) _
  have behind : ((writeAt buf 4 (m.uint32 index)).drop 4).take 4 = m.uint32 index := by
    rw [drop_writeAt le_rfl (by omega), Nat.sub_self, writeAt]
    simp
  constructor
  · rw [Request.ofBuffer, Request.ofBuffer, front]
  · rw [Request.ofBuffer, behind]
    simp

theorem Machine.exists_bytes (m : Machine) (x : UInt32) :
    ∃ a b c d, m.uint32 x = [a, b, c, d] ∧ m.order.value [a, b, c, d] = x.toNat := by
  have four := m.length_uint32 x
  match bytes : m.uint32 x with
  | [a, b, c, d] => exact ⟨a, b, c, d, rfl, by rw [← bytes, m.value_uint32]⟩
  | [] | [_] | [_, _] | [_, _, _] | _ :: _ :: _ :: _ :: _ :: _ => simp [bytes] at four

theorem digits_eq_of_shift {t a b c d : ℕ} (ht : t < 256) (ha : a < 256) (hb : b < 256) (hc : c < 256)
    (h : t + 256 * (a + 256 * (b + 256 * c)) = a + 256 * (b + 256 * (c + 256 * d))) : a = t ∧ b = t ∧
    c = t ∧ d = t := by
  have first : a = t := by omega
  have second : b = a := by omega
  have third : c = b := by omega
  omega

theorem toNat_ofNat_value (order : ByteOrder) (a b c d : UInt8) :
    (ofNat (order.value [a, b, c, d])).toNat = order.value [a, b, c, d] := by
  apply toNat_ofNat_of_lt'
  have := a.toNat_lt
  have := b.toNat_lt
  have := c.toNat_lt
  have := d.toNat_lt
  cases order <;> simp only [ByteOrder.value, reverse_cons, reverse_nil, nil_append, cons_append,
    ofLowFirst, size] <;> omega

/-- If the index is right and the address asks for all entries, there is nothing left to ask for. -/
theorem Request.total_le {total start : UInt32} {rest : List UInt8}
    (all : (Request.ofBuffer m (0 :: (m.uint32 total ++ (m.uint32 start ++ rest)))).ip = 0)
    (right : (Request.ofBuffer m (0 :: (m.uint32 total ++ (m.uint32 start ++ rest)))).index = start) :
    total ≤ start := by
  obtain ⟨t₀, t₁, t₂, t₃, totalBytes, total_eq⟩ := m.exists_bytes total
  obtain ⟨s₀, s₁, s₂, s₃, startBytes, start_eq⟩ := m.exists_bytes start
  have address : m.order.value [0, t₀, t₁, t₂] = 0 := by
    have := congrArg toNat all
    rw [Request.ofBuffer, totalBytes] at this
    exact (toNat_ofNat_value _ _ _ _ _).symm.trans this
  have index : m.order.value [t₃, s₀, s₁, s₂] = m.order.value [s₀, s₁, s₂, s₃] := by
    have := congrArg toNat right
    rw [Request.ofBuffer, totalBytes, startBytes, ← start_eq] at this
    exact (toNat_ofNat_value _ _ _ _ _).symm.trans this
  rw [le_iff_toNat_le, ← total_eq, ← start_eq]
  have := t₃.toNat_lt
  have := s₀.toNat_lt
  have := s₁.toNat_lt
  have := s₂.toNat_lt
  have := s₃.toNat_lt
  cases h : m.order with
  | little =>
    simp only [h, ByteOrder.value, ofLowFirst, Nat.mul_zero, Nat.add_zero] at address index ⊢
    obtain ⟨-, -, -, top⟩ := digits_eq_of_shift (by omega) (by omega) (by omega) (by omega) index
    omega
  | big =>
    simp only [h, ByteOrder.value, reverse_cons, reverse_nil, nil_append, cons_append,
      ofLowFirst, Nat.mul_zero, Nat.add_zero] at address index ⊢
    obtain ⟨-, -, -, low⟩ := digits_eq_of_shift (by omega) (by omega) (by omega) (by omega) index.symm
    omega

/-! ## Answers -/

theorem Rule.length_matching_le (rule : Rule) (ip : UInt32) : (rule.matching ip).length ≤ rule.entries.length := by
  rw [Rule.matching]
  split
  · exact le_rfl
  · exact length_filter_le _ _

theorem Rule.toNat_length_matching (rule : Rule) (ip : UInt32) :
    (ofNat (rule.matching ip).length).toNat = (rule.matching ip).length :=
  toNat_ofNat_of_lt' (lt_of_le_of_lt (rule.length_matching_le ip) rule.few)

theorem Kernel.toNat_length_answered (kernel : Kernel m) (rule : Rule) (request : Request) :
    (ofNat (kernel.answered rule request).length).toNat = (kernel.answered rule request).length := by
  apply toNat_ofNat_of_lt'
  have := rule.length_matching_le request.ip
  have := rule.few
  simp only [Kernel.answered, length_take, length_drop, size]
  omega

variable {request : Request}

theorem run_readAnswer {clock : Clock m} {getHistory : UInt8} (error : UInt8) (total start number : UInt32)
    (resetInterval resetTime : UInt64) (isConstantInterval : UInt8) (blocks : List UInt8) :
    (readAnswer clock getHistory).run (error :: (m.uint32 total ++ (m.uint32 start ++ (m.uint32 number ++
        (m.uint64 resetInterval ++ (m.uint64 resetTime ++ isConstantInterval :: blocks)))))) =
      ((readTimes (parseReturnedIpData clock getHistory resetInterval resetTime isConstantInterval)
        number.toNat).run blocks).map fun p => (⟨total, number, p.1.val⟩, p.2) := by
  simp [readAnswer]

theorem run_parseReturnedIpData (clock : Clock m) (getHistory : UInt8) (rule : Rule) (e : KernelEntry)
    (rest : List UInt8) :
    (parseReturnedIpData clock getHistory rule.resetInterval rule.resetTime rule.isConstantInterval).run
        (e.block m getHistory ++ rest) = some (rule.cellWith clock.shifted getHistory e, rest) := by
  by_cases usage : getHistory = 0
  · simp [parseReturnedIpData, KernelEntry.block, Rule.cellWith, usage]
  · have bws := run_readTimes (fun x => x) e.nodes (fun x _ rest => m.run_readUInt64 x rest) rest
    simp only [List.map_id'] at bws
    simp [parseReturnedIpData, KernelEntry.block, Rule.cellWith, usage, bws]

section Rounds

variable {kernel : Kernel m} {clock : Clock m} {getHistory : UInt8} {fuel : ℕ} {state : QueryState m}
  {r : QueryResult m} {rule : Rule}

theorem queryLoop_succ (clock : Clock m) (getHistory : UInt8) (state : QueryState m)
    (current : Request.ofBuffer m state.buf = request) (known : kernel.rules request.id = some rule) :
    ∃ (rest : List UInt8) (total number : UInt32),
      kernel.answer request = 0 :: (m.uint32 total ++ (m.uint32 request.index ++ (m.uint32 number ++
        (m.uint64 rule.resetInterval ++ (m.uint64 rule.resetTime ++ rule.isConstantInterval ::
          ((kernel.answered rule request).flatMap (KernelEntry.block m request.history) ++ rest)))))) ∧
      total.toNat = (rule.matching request.ip).length ∧ number.toNat = (kernel.answered rule request).length ∧
      ∀ fuel, queryLoop kernel clock getHistory (fuel + 1) state =
        ((readTimes (parseReturnedIpData clock getHistory rule.resetInterval rule.resetTime rule.isConstantInterval)
          number.toNat).run ((kernel.answered rule request).flatMap (KernelEntry.block m request.history) ++ rest)).bind
        fun p => (store (List.replicate (total + 1).toNat (zeroCell m getHistory)) state.dataIndex p.1.val).bind
        fun data => if (Request.ofBuffer m (kernel.answer request)).index + number < total then
            queryLoop kernel clock getHistory fuel ⟨writeAt (kernel.answer request) 4
                (m.uint32 ((Request.ofBuffer m (kernel.answer request)).index + number)),
                data, total.toNat, state.dataIndex + p.1.val.length, state.asked ++ [(request, state.dataIndex)]⟩
          else
            some ⟨true, total.toNat, data, state.dataIndex + p.1.val.length,
              state.asked ++ [(request, state.dataIndex)]⟩ := by
  have answer := Eq.refl (kernel.answer request)
  conv_rhs at answer => rw [Kernel.answer, known]
  simp only [Kernel.filled, cons_append, append_assoc, nil_append] at answer
  refine ⟨_, _, _, answer, rule.toNat_length_matching _, kernel.toNat_length_answered _ _, fun fuel => ?_⟩
  have no_error : (kernel.answer request).getD 0 0 = 0 := by rw [answer]; rfl
  rw [queryLoop, current, if_neg (not_not.2 no_error)]
  conv_lhs => arg 1; rw [answer, run_readAnswer]
  rw [bind_eq_bind, bind_map]
  rfl

theorem Request.one_address {total number index : UInt32} {rest : List UInt8}
    (answer : kernel.answer request = 0 :: (m.uint32 total ++ (m.uint32 request.index ++ rest)))
    (next : index = (Request.ofBuffer m (kernel.answer request)).index + number) (more : index < total)
    (right : (Request.ofBuffer m (writeAt (kernel.answer request) 4 (m.uint32 index))).index.toNat =
      request.index.toNat + number.toNat) :
    (Request.ofBuffer m (writeAt (kernel.answer request) 4 (m.uint32 index))).ip ≠ 0 := by
  have long : 8 ≤ (kernel.answer request).length := by
    rw [answer]
    simp
    omega
  obtain ⟨keeps, written⟩ := Request.ofBuffer_writeAt (m := m) long index
  intro all
  rw [keeps, answer] at all
  rw [written] at right
  rw [answer] at next
  refine absurd (Request.total_le all ?_) ?_
  · -- the number of new entries was added to both sides
    apply UInt32.toNat.inj
    have sum := congrArg UInt32.toNat next
    have bound := index.toNat_lt
    have bound' := (Request.ofBuffer m (0 :: (m.uint32 total ++ (m.uint32 request.index ++ rest)))).index.toNat_lt
    rw [UInt32.toNat_add] at sum
    omega
  · rw [UInt32.not_le]
    rw [UInt32.lt_iff_toNat_lt] at more ⊢
    omega

theorem queryLoop_asked (h : queryLoop kernel clock getHistory fuel state = some r) :
    state.asked ++ [(Request.ofBuffer m state.buf, state.dataIndex)] <+: r.asked := by
  induction fuel generalizing state with
  | zero => exact absurd h (by simp [queryLoop])
  | succ fuel ih =>
    rw [queryLoop] at h
    dsimp only at h
    split at h
    case isTrue => rw [← some.inj h]
    case isFalse =>
      obtain ⟨⟨answer, rest⟩, -, h⟩ := bind_eq_some_iff.1 h
      obtain ⟨data, -, h⟩ := bind_eq_some_iff.1 h
      dsimp only at h
      split at h
      case isTrue => exact (prefix_append _ _).trans (ih h)
      case isFalse => rw [← some.inj h]

theorem head_store {zero : Cell m} {n i : ℕ} {cells data : List (Cell m)}
    (h : store (List.replicate n zero) i cells = some data) (behind : 1 ≤ i) : ∀ c ∈ data.head?, c = zero := by
  rw [store] at h
  split at h
  case isFalse => exact absurd h (by simp)
  case isTrue inside =>
    rw [← some.inj h]
    rcases inside with rfl | room
    · rw [writeAt_nil]
      intro c mem
      exact eq_of_mem_replicate (mem_of_mem_head? mem)
    · obtain ⟨i, rfl⟩ : ∃ k, i = k + 1 := ⟨i - 1, by omega⟩
      cases n with
      | zero =>
        rw [replicate_zero, length_nil] at room
        omega
      | succ n => simp [writeAt, replicate_succ]

/-- From the second request on the answers are about one address only: every request that has the right index asks
for an address, and the first element is never filled in again. -/
theorem queryLoop_late {id : List UInt8} (known : kernel.rules id = some rule)
    (h : queryLoop kernel clock getHistory fuel state = some r)
    (asked : ∀ q ∈ r.asked, q.1.id = id ∧ q.1.index.toNat = q.2) (begun : 1 ≤ state.dataIndex)
    (one : (Request.ofBuffer m state.buf).index.toNat = state.dataIndex → (Request.ofBuffer m state.buf).ip ≠ 0) :
    (∀ c ∈ r.data.head?, c = zeroCell m getHistory) ∧ ∃ ip ≠ 0, r.numIps = (rule.matching ip).length := by
  induction fuel generalizing state with
  | zero => exact absurd h (by simp [queryLoop])
  | succ fuel ih =>
    have log : (Request.ofBuffer m state.buf, state.dataIndex) ∈ r.asked := (queryLoop_asked h).subset (by simp)
    obtain ⟨same, right⟩ := asked _ log
    dsimp only at same right
    obtain ⟨rest, total, number, answer, total_eq, -, step⟩ := queryLoop_succ clock getHistory state rfl (same ▸ known)
    rw [step] at h
    obtain ⟨⟨cells, rest'⟩, -, h⟩ := bind_eq_some_iff.1 h
    obtain ⟨data, stored, h⟩ := bind_eq_some_iff.1 h
    dsimp only at stored h
    split at h
    case isFalse =>
      rw [← some.inj h]
      exact ⟨head_store stored begun, _, one right, total_eq⟩
    case isTrue more =>
      refine ih h (Nat.le_add_right_of_le begun) fun right' => Request.one_address answer rfl more ?_
      rw [right', right, cells.property]

end Rounds

/-! ## The whole query -/

structure RuleName where
  bytes : List UInt8
  short : bytes.length < 50
  text : 0 ∉ bytes

def firstRequest (name : RuleName) (getHistory : UInt8) : Request := ⟨0, 0, getHistory, name.bytes⟩

theorem Kernel.answered_first (kernel : Kernel m) (rule : Rule) (name : RuleName) (getHistory : UInt8) :
    kernel.answered rule (firstRequest name getHistory) =
      rule.entries.take (kernel.perBuffer (firstRequest name getHistory)) := by
  simp [Kernel.answered, Rule.matching, firstRequest]

theorem Rule.ip_cellWith (move : m.Time → m.Time) (getHistory : UInt8) (rule : Rule) (e : KernelEntry) :
    (rule.cellWith move getHistory e).ip = e.ip := by
  rw [Rule.cellWith]
  split <;> rfl

theorem ip_zeroCell (getHistory : UInt8) : (zeroCell m getHistory).ip = 0 := by
  rw [zeroCell]
  split <;> rfl

def KernelEntry.SameOffset (clock : Clock m) (e : KernelEntry) : Prop :=
  clock.getMinutesWest (m.toTime e.firstStart) = clock.getMinutesWest clock.now ∧
    clock.getMinutesWest (m.toTime e.firstEnd) = clock.getMinutesWest clock.now ∧
    clock.getMinutesWest (m.toTime e.lastEnd) = clock.getMinutesWest clock.now

theorem Rule.cellWith_shifted_iff (clock : Clock m) (getHistory : UInt8) (rule : Rule) (e : KernelEntry) :
    rule.cellWith clock.shifted getHistory e = rule.cellWith (fun t => t) getHistory e ↔
      (getHistory ≠ 0 → e.SameOffset clock) := by
  by_cases usage : getHistory = 0
  · simp [Rule.cellWith, usage]
  · simp [Rule.cellWith, usage, KernelEntry.SameOffset, clock.shifted_eq_iff]

theorem KernelEntry.length_block (history : UInt8) (e : KernelEntry) : 12 ≤ (e.block m history).length := by
  have eight : ∀ x, (m.uint64 x).length = 8 := fun x => m.order.length_bytes 8 _
  rw [KernelEntry.block]
  split
  · simp [eight]
  · simp [eight]
    omega

theorem length_blocks (history : UInt8) (entries : List KernelEntry) :
    12 * entries.length ≤ (entries.flatMap (KernelEntry.block m history)).length := by
  induction entries with
  | nil => simp
  | cons e entries ih =>
    have := e.length_block (m := m) history
    rw [flatMap_cons, length_append, length_cons]
    omega

theorem Request.index_le (total : UInt32) (rest : List UInt8) :
    (Request.ofBuffer m (0 :: (m.uint32 total ++ (m.uint32 0 ++ rest)))).index.toNat ≤ 255 * 2 ^ 24 := by
  obtain ⟨t₀, t₁, t₂, t₃, totalBytes, -⟩ := m.exists_bytes total
  have zero : m.uint32 0 = [0, 0, 0, 0] := by
    rw [Machine.uint32]
    cases m.order <;> rfl
  have bound := t₃.toNat_lt
  rw [Request.ofBuffer, totalBytes, zero]
  refine le_of_eq_of_le (toNat_ofNat_value m.order t₃ 0 0 0) ?_
  cases m.order
  · simp [ByteOrder.value, ofLowFirst]
    omega
  · simp [ByteOrder.value, ofLowFirst]
    omega

section Whole

variable {kernel : Kernel m} {clock : Clock m} {name : RuleName} {getHistory : UInt8} {rule : Rule}

theorem getBandwidthData_first (clock : Clock m) (getHistory : UInt8) (known : kernel.rules name.bytes = some rule) :
    ∃ (rest : List UInt8) (total number : UInt32),
      kernel.answer (firstRequest name getHistory) = 0 :: (m.uint32 total ++ (m.uint32 0 ++ rest)) ∧
      total.toNat = rule.entries.length ∧ number.toNat = (kernel.answered rule (firstRequest name getHistory)).length ∧
      ∀ fuel, getBandwidthData kernel clock name.bytes getHistory 0 (fuel + 1) =
        (store (List.replicate (total + 1).toNat (zeroCell m getHistory)) 0
          ((kernel.answered rule (firstRequest name getHistory)).map (rule.cellWith clock.shifted getHistory))).bind
        fun data => if (Request.ofBuffer m (kernel.answer (firstRequest name getHistory))).index + number < total then
            queryLoop kernel clock getHistory fuel
              ⟨writeAt (kernel.answer (firstRequest name getHistory)) 4 (m.uint32 ((Request.ofBuffer m
                (kernel.answer (firstRequest name getHistory))).index + number)),
                data, total.toNat, number.toNat, [(firstRequest name getHistory, 0)]⟩ else
            some ⟨true, total.toNat, data, number.toNat, [(firstRequest name getHistory, 0)]⟩ := by
  have current : Request.ofBuffer m (requestBuffer m 0 getHistory name.bytes) = firstRequest name getHistory :=
    Request.ofBuffer_requestBuffer name.short name.text 0 getHistory
  obtain ⟨rest, total, number, answer, total_eq, number_eq, step⟩ :=
    queryLoop_succ clock getHistory ⟨requestBuffer m 0 getHistory name.bytes, [], 0, 0, []⟩ current known
  refine ⟨_, total, number, answer, total_eq, number_eq, fun fuel => ?_⟩
  have blocks := run_readTimes (rule.cellWith clock.shifted getHistory) number_eq.symm
    (fun e _ rest => run_parseReturnedIpData clock getHistory rule e rest) rest
  rw [getBandwidthData, step]
  change Option.bind (StateT.run _ ((kernel.answered rule (firstRequest name getHistory)).flatMap
    (KernelEntry.block m getHistory) ++ rest)) _ = _
  rw [blocks, bind_some]
  simp [length_map, ← number_eq, nil_append]

theorem getBandwidthData_one (clock : Clock m) (known : kernel.rules name.bytes = some rule)
    (fits : rule.entries.length ≤ kernel.perBuffer (firstRequest name getHistory)) (fuel : ℕ) :
    getBandwidthData kernel clock name.bytes getHistory 0 (fuel + 1) = some ⟨true, rule.entries.length,
        rule.entries.map (rule.cellWith clock.shifted getHistory) ++ [zeroCell m getHistory],
        rule.entries.length, [(firstRequest name getHistory, 0)]⟩ := by
  obtain ⟨rest, total, number, answer, total_eq, number_eq, step⟩ := getBandwidthData_first clock getHistory known
  have every : kernel.answered rule (firstRequest name getHistory) = rule.entries := by
    rw [kernel.answered_first, take_of_length_le fits]
  have few : 30 + 12 * rule.entries.length ≤ 16384 := by
    have room := kernel.fits (firstRequest name getHistory) rule known
    rw [← Kernel.answered, every, bandwidthQueryLength] at room
    have := length_blocks (m := m) (firstRequest name getHistory).history rule.entries
    omega
  have size : (total + 1).toNat = rule.entries.length + 1 := by
    rw [UInt32.toNat_add, total_eq, UInt32.toNat_one]
    omega
  rw [every] at number_eq step
  have last : ¬ (Request.ofBuffer m (kernel.answer (firstRequest name getHistory))).index + number < total := by
    have small := Request.index_le (m := m) total rest
    rw [← answer] at small
    rw [UInt32.not_lt, UInt32.le_iff_toNat_le, UInt32.toNat_add]
    omega
  rw [step, store, if_pos (.inr (by simp [size])), bind_some, if_neg last, total_eq, number_eq, size]
  simp [writeAt]

theorem getBandwidthData_more {fuel : ℕ} {r : QueryResult m} (known : kernel.rules name.bytes = some rule)
    (long : kernel.perBuffer (firstRequest name getHistory) < rule.entries.length)
    (h : getBandwidthData kernel clock name.bytes getHistory 0 (fuel + 1) = some r) :
    ¬ r.Right rule name.bytes getHistory := by
  obtain ⟨rest, total, number, answer, total_eq, number_eq, step⟩ := getBandwidthData_first clock getHistory known
  have some_entry := kernel.perBuffer_pos (firstRequest name getHistory)
  rw [kernel.answered_first, length_take] at number_eq
  rw [step] at h
  obtain ⟨data, -, h⟩ := bind_eq_some_iff.1 h
  intro right
  split at h
  case isFalse =>
    -- the loop ends with fewer elements than it says
    have stored := right.stored
    rw [← some.inj h] at stored
    dsimp only at stored
    omega
  case isTrue more =>
    obtain ⟨zero, ip, some_ip, numIps⟩ := queryLoop_late known h right.asked (by dsimp only; omega) fun right' =>
      Request.one_address answer rfl more (right'.trans (Nat.zero_add _).symm)
    -- all entries have the address that was asked for, the first element has none
    obtain ⟨e, others, entries⟩ := exists_cons_of_ne_nil (l := rule.entries) (by
      intro none
      rw [none] at long
      exact absurd long (by simp))
    have same : e.ip = ip := by
      rw [right.numIps, Rule.matching, if_neg some_ip] at numIps
      have all := length_filter_eq_length_iff.1 numIps.symm e (by simp [entries])
      simpa using all
    have first : (rule.cellWith (fun t => t) getHistory e) = zeroCell m getHistory := by
      apply zero
      have head := congrArg List.head? right.data
      rw [entries, map_cons, head?_cons, head?_take, if_neg (by rw [right.numIps]; omega)] at head
      exact head
    have := congrArg Cell.ip first
    rw [Rule.ip_cellWith, ip_zeroCell, same] at this
    exact some_ip this

/-- The query gives the table exactly when all of it fits the first answer and, for histories, the offset from UTC has
not changed since. -/
theorem getBandwidthData_right_iff (known : kernel.rules name.bytes = some rule) :
    (∃ r, Returns (getBandwidthData kernel clock name.bytes getHistory 0) r ∧ r.Right rule name.bytes getHistory) ↔
      rule.entries.length ≤ kernel.perBuffer (firstRequest name getHistory) ∧
        (getHistory ≠ 0 → ∀ e ∈ rule.entries, e.SameOffset clock) := by
  have offsets : rule.entries.map (rule.cellWith clock.shifted getHistory) =
      rule.entries.map (rule.cellWith (fun t => t) getHistory) ↔
        (getHistory ≠ 0 → ∀ e ∈ rule.entries, e.SameOffset clock) := by
    rw [map_inj_left]
    simp only [rule.cellWith_shifted_iff clock]
    exact ⟨fun h flag e mem => h e mem flag, fun h e mem flag => h flag e mem⟩
  constructor
  · rintro ⟨r, ⟨n, returns⟩, right⟩
    have result := returns (n + 1) (by omega)
    rcases Nat.lt_or_ge (kernel.perBuffer (firstRequest name getHistory)) rule.entries.length with long | fits
    · exact absurd right (getBandwidthData_more known long result)
    · rw [getBandwidthData_one clock known fits] at result
      have data := right.data
      rw [← some.inj result] at data
      exact ⟨fits, offsets.1 (by simpa using data)⟩
  · rintro ⟨fits, same⟩
    refine ⟨⟨true, rule.entries.length,
      rule.entries.map (rule.cellWith clock.shifted getHistory) ++ [zeroCell m getHistory],
      rule.entries.length, [(firstRequest name getHistory, 0)]⟩, ⟨1, fun n le => ?_⟩, ?_⟩
    · obtain ⟨n, rfl⟩ : ∃ k, n = k + 1 := ⟨n - 1, by omega⟩
      exact getBandwidthData_one clock known fits n
    · exact {
        success := rfl
        numIps := rfl
        stored := rfl
        data := by simpa using offsets.2 same
        asked := by simp [firstRequest] }

end Whole

/-! ## A table of two addresses -/

def lowMachine : Machine := { narrowMachine with order := .little }

def midnight : ClockReading where
  mday := 1
  hour := 0
  min := 0
  mday_range := by decide
  hour_range := by decide
  min_range := by decide

def utcClock : Clock lowMachine where
  now := 0
  gmtime _ := midnight
  localtime _ := midnight

def usageEntry (ip : UInt32) (bw : UInt64) : KernelEntry where
  ip := ip
  bw := bw
  numNodes := 0
  firstStart := 0
  firstEnd := 0
  lastEnd := 0
  historyBws := []
  nodes := length_no_nodes

def twoAddresses : Rule where
  entries := [usageEntry 0x0100a8c0 7, usageEntry 0x0200a8c0 9]
  resetInterval := 82
  resetTime := 0
  isConstantInterval := 0
  few := by decide

theorem length_block_le {e : KernelEntry} (none : e.historyBws = []) (history : UInt8) :
    (e.block lowMachine history).length ≤ 32 := by
  have eight : ∀ x, (lowMachine.uint64 x).length = 8 := fun x => lowMachine.order.length_bytes 8 _
  rw [KernelEntry.block]
  split <;> simp [eight, none]

theorem length_blocks_le {entries : List KernelEntry} (none : ∀ e ∈ entries, e.historyBws = []) (history : UInt8) :
    (entries.flatMap (KernelEntry.block lowMachine history)).length ≤ 32 * entries.length := by
  induction entries with
  | nil => simp
  | cons e entries ih =>
    have := length_block_le (none e (by simp)) history
    have := ih fun e mem => none e (by simp [mem])
    rw [flatMap_cons, length_append, length_cons]
    omega

theorem mem_matching {rule : Rule} {ip : UInt32} {e : KernelEntry} (h : e ∈ rule.matching ip) : e ∈ rule.entries := by
  rw [Rule.matching] at h
  split at h
  · exact h
  · exact mem_of_mem_filter h

def twoKernel (perBuffer : ℕ) (range : perBuffer = 1 ∨ perBuffer = 2) : Kernel lowMachine where
  rules id := if id = [97] then some twoAddresses else none
  perBuffer _ := perBuffer
  spare _ := []
  perBuffer_pos _ := by omega
  fits request rule known := by
    have table : rule = twoAddresses := by
      split at known
      · exact (some.inj known).symm
      · exact absurd known (by simp)
    subst table
    have none : ∀ e ∈ twoAddresses.entries, e.historyBws = [] := by
      simp [twoAddresses, usageEntry]
    have answered : ∀ e ∈ ((twoAddresses.matching request.ip).drop request.index.toNat).take perBuffer,
        e.historyBws = [] := fun e mem =>
      none e (mem_matching (mem_of_mem_drop (mem_of_mem_take mem)))
    refine (Nat.add_le_add_left (length_blocks_le answered request.history) 30).trans ?_
    rw [length_take, bandwidthQueryLength]
    omega

def ruleA : RuleName := ⟨[97], by decide, by decide⟩

/-- Two entries in one answer. -/
theorem getBandwidthData_right_two :
    ∃ r, Returns (getBandwidthData (twoKernel 2 (.inr rfl)) utcClock [97] 0 0) r ∧ r.Right twoAddresses [97] 0 :=
  (getBandwidthData_right_iff (show (twoKernel 2 (.inr rfl)).rules ruleA.bytes = some twoAddresses from rfl)).2
    ⟨by decide, fun h => absurd rfl h⟩

/-- One entry in each answer: the second request is for the address `0.2.0.0` of the rule `\x01`, and the query
fails. -/
theorem getBandwidthData_one_each :
    (getBandwidthData (twoKernel 1 (.inl rfl)) utcClock [97] 0 0 2).map (fun r => (r.success, r.asked)) =
      some (false, [(⟨0, 0, 0, [97]⟩, 0), (⟨0x200, 1, 0, [1]⟩, 1)]) := by
  decide +kernel

end OpenWifi.Bwctl
