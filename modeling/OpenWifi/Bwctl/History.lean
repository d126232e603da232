import OpenWifi.Lib.ByteOrder

/-!
# Bandwidth history files

`saveHistoryToFile` writes the histories of a rule as binary records in the byte order of the machine, with counters of
four or eight bytes, as the largest one needs, and `loadHistoryFromFile` reads them back.
-/

namespace OpenWifi.Bwctl

open List UInt64

/-- What the source leaves to the machine: the order of the bytes in memory and the sizes of `unsigned long` and
of `time_t`. -/
structure Machine where
  order : ByteOrder
  longBytes : ℕ
  timeBits : ℕ
  long_size : longBytes = 4 ∨ longBytes = 8
  time_size : timeBits = 32 ∨ timeBits = 64

/-- `time_t`, a signed number. -/
abbrev Machine.Time (m : Machine) : Type := BitVec m.timeBits

/-- `ip_bw_history`: the counters are the first `num_nodes` numbers behind the pointer. -/
structure IpBwHistory (m : Machine) where
  ip : UInt32
  numNodes : UInt32
  resetInterval : m.Time
  resetTime : m.Time
  isConstantInterval : UInt8
  firstStart : m.Time
  firstEnd : m.Time
  lastEnd : m.Time
  historyBws : List UInt64
  nodes : historyBws.length = numNodes.toNat
  deriving DecidableEq

/-! ## Writing -/

namespace Machine

variable (m : Machine)

def uint32 (x : UInt32) : List UInt8 := m.order.bytes 4 x.toNat

def uint64 (x : UInt64) : List UInt8 := m.order.bytes 8 x.toNat

/-- A time goes through a cast to `uint64_t`. -/
def time (t : m.Time) : List UInt8 := m.order.bytes 8 (t.signExtend 64).toNat

def bw (bits : UInt8) (x : UInt64) : List UInt8 :=
  if bits = 32 then m.uint32 x.toUInt32 else m.uint64 x

end Machine

def int32Max : UInt64 := 0x7fffffff

/-- `bw_bits`: the loop over the counters ends at the first one that needs eight bytes. -/
def bwBits : List UInt64 → UInt8
  | [] => 32
  | bw :: rest => if bw < int32Max then bwBits rest else 64

variable {m : Machine} (h : IpBwHistory m)

def IpBwHistory.record : List UInt8 :=
  m.uint32 h.ip ++ m.uint32 h.numNodes ++ if h.numNodes = 0 then
      m.uint64 0 ++ m.uint64 0 ++ m.uint64 0 ++ [32]
    else
      m.time h.firstStart ++ m.time h.firstEnd ++ m.time h.lastEnd ++ [bwBits h.historyBws] ++
        h.historyBws.flatMap (m.bw (bwBits h.historyBws))

def intervalHeader : List (IpBwHistory m) → List UInt8
  | [] => []
  | first :: _ => m.time first.resetInterval ++ m.time first.resetTime ++ [first.isConstantInterval]

/-- `save_history_to_file`.  The number of histories is written as the first four bytes of an `unsigned long`. -/
def saveHistoryToFile (data : List (IpBwHistory m)) : List UInt8 :=
  (m.order.bytes m.longBytes data.length).take 4 ++ intervalHeader data ++ data.flatMap IpBwHistory.record

/-! ## Reading -/

abbrev FileReader := StateT (List UInt8) Option

def fread (size : ℕ) : FileReader (List UInt8) := fun file =>
  if size ≤ file.length then some (file.take size, file.drop size) else none

namespace Machine

variable (m : Machine)

def readUInt8 : FileReader UInt8 := do
  let memory ← fread 1
  return UInt8.ofNat (m.order.value memory)

def readUInt32 : FileReader UInt32 := do
  let memory ← fread 4
  return UInt32.ofNat (m.order.value memory)

def readUInt64 : FileReader UInt64 := do
  let memory ← fread 8
  return ofNat (m.order.value memory)

/-- The cast of a `uint64_t` to `time_t`. -/
def toTime (x : UInt64) : m.Time := x.toBitVec.setWidth m.timeBits

/-- One counter of a record with this value of `bw_bits`. -/
def readBw (bits : UInt8) : FileReader UInt64 := do
  if bits = 32 then
    let nextbw ← m.readUInt32
    return nextbw.toUInt64
  else
    m.readUInt64

end Machine

def readTimes {α : Type} (reader : FileReader α) :
    (count : ℕ) → FileReader { results : List α // results.length = count }
  | 0 => return ⟨[], rfl⟩
  | count + 1 => do
    let first ← reader
    let rest ← readTimes reader count
    return ⟨first :: rest.val, congrArg (· + 1) rest.property⟩

/-- One round of the loop of `load_history_from_file`. -/
def readRecord (resetInterval resetTime : UInt64) (isConstantInterval : UInt8) : FileReader (IpBwHistory m) := do
  let ip ← m.readUInt32
  let numNodes ← m.readUInt32
  let firstStart ← m.readUInt64
  let firstEnd ← m.readUInt64
  let lastEnd ← m.readUInt64
  let bits ← m.readUInt8
  let bws ← readTimes (m.readBw bits) numNodes.toNat
  return {
    ip := ip
    numNodes := numNodes
    resetInterval := m.toTime resetInterval
    resetTime := m.toTime resetTime
    isConstantInterval := isConstantInterval
    firstStart := m.toTime firstStart
    firstEnd := m.toTime firstEnd
    lastEnd := m.toTime lastEnd
    historyBws := bws.val
    nodes := bws.property }

/-- `load_history_from_file`. -/
def loadHistoryFromFile (m : Machine) : FileReader (List (IpBwHistory m)) := do
  let nips ← m.readUInt32
  if nips = 0 then
    return []
  else
    let resetInterval ← m.readUInt64
    let resetTime ← m.readUInt64
    let isConstantInterval ← m.readUInt8
    let data ← readTimes (readRecord resetInterval resetTime isConstantInterval) nips.toNat
    return data.val

/-! ## Reading what was written -/

theorem run_fread (chunk rest : List UInt8) {size : ℕ} (h : chunk.length = size) :
    (fread size).run (chunk ++ rest) = some (chunk, rest) := by
  subst h
  simp [fread, StateT.run]

namespace Machine

variable (m : Machine)

@[simp] theorem run_readUInt8 (x : UInt8) (rest : List UInt8) : m.readUInt8.run (x :: rest) = some (x, rest) := by
  have one : m.order.value [x] = x.toNat := by
    cases m.order <;> simp [ByteOrder.value, ofLowFirst]
  have read : (fread 1).run (x :: rest) = some ([x], rest) := run_fread [x] rest rfl
  simp [readUInt8, read, one]

@[simp] theorem run_readUInt32 (x : UInt32) (rest : List UInt8) :
    m.readUInt32.run (m.uint32 x ++ rest) = some (x, rest) := by
  have back : m.order.value (m.uint32 x) = x.toNat := m.order.value_bytes_of_lt x.toNat_lt
  simp [readUInt32, run_fread (m.uint32 x) rest (m.order.length_bytes 4 _), back]

@[simp] theorem run_readUInt64 (x : UInt64) (rest : List UInt8) :
    m.readUInt64.run (m.uint64 x ++ rest) = some (x, rest) := by
  have back : m.order.value (m.uint64 x) = x.toNat := m.order.value_bytes_of_lt x.toNat_lt
  simp [readUInt64, run_fread (m.uint64 x) rest (m.order.length_bytes 8 _), back]

theorem time_eq (t : m.Time) : m.time t = m.uint64 (ofBitVec (t.signExtend 64)) := rfl

@[simp] theorem toTime_signExtend (t : m.Time) : m.toTime (ofBitVec (t.signExtend 64)) = t := by
  have narrow : m.timeBits ≤ 64 := by
    rcases m.time_size with h | h <;> omega
  apply BitVec.eq_of_getLsbD_eq
  intro i hi
  have low : i < 64 := by omega
  simp only [toTime, BitVec.getLsbD_setWidth, BitVec.getLsbD_signExtend, hi, low, if_true, decide_true, Bool.true_and]

@[simp] theorem toTime_zero : m.toTime 0 = 0#m.timeBits := by
  simp [toTime]

@[simp] theorem run_readBw {bits : UInt8} {x : UInt64} (fits : bits = 32 → x < int32Max) (rest : List UInt8) :
    (m.readBw bits).run (m.bw bits x ++ rest) = some (x, rest) := by
  by_cases narrow : bits = 32
  · have small : x.toNat < 2 ^ 32 := by
      have := lt_iff_toNat_lt.1 (fits narrow)
      simp only [int32Max] at this
      exact Nat.lt_trans this (by decide)
    have back : x.toUInt32.toUInt64 = x := by
      apply toNat.inj
      rw [UInt32.toNat_toUInt64, toNat_toUInt32, Nat.mod_eq_of_lt small]
    simp [readBw, bw, narrow, back]
  · simp [readBw, bw, narrow]

end Machine

theorem lt_of_bwBits {bws : List UInt64} (h : bwBits bws = 32) : ∀ bw ∈ bws, bw < int32Max := by
  induction bws with
  | nil => simp
  | cons bw rest ih =>
    rw [bwBits] at h
    split at h
    case isTrue small => simpa [small] using ih h
    case isFalse => exact absurd h (by decide)

theorem run_readTimes {α β : Type} {reader : FileReader β} {write : α → List UInt8} (back : α → β)
    {items : List α} {count : ℕ} (number : items.length = count)
    (one : ∀ a ∈ items, ∀ rest, reader.run (write a ++ rest) = some (back a, rest)) (rest : List UInt8) :
    (readTimes reader count).run (items.flatMap write ++ rest) = some (⟨items.map back, by simp [number]⟩, rest) := by
  subst number
  induction items with
  | nil => simp [readTimes]
  | cons a items ih =>
    have first := one a (by simp) (items.flatMap write ++ rest)
    have others := ih fun b hb => one b (by simp [hb])
    simp [readTimes, first, others]

def IpBwHistory.restored : IpBwHistory m :=
  if h.numNodes = 0 then { h with firstStart := 0, firstEnd := 0, lastEnd := 0 } else h

theorem run_readBws (rest : List UInt8) : (readTimes (m.readBw (bwBits h.historyBws)) h.numNodes.toNat).run
        (h.historyBws.flatMap (m.bw (bwBits h.historyBws)) ++ rest) = some (⟨h.historyBws, h.nodes⟩, rest) := by
  have read := run_readTimes id h.nodes
    (fun bw mem rest => m.run_readBw (fun narrow => lt_of_bwBits narrow bw mem) rest) rest
  simpa only [map_id] using read

theorem run_readRecord (h : IpBwHistory m) (rest : List UInt8) :
    (readRecord (m := m) (ofBitVec (h.resetInterval.signExtend 64))
        (ofBitVec (h.resetTime.signExtend 64)) h.isConstantInterval).run (h.record ++ rest) =
      some (h.restored, rest) := by
  by_cases empty : h.numNodes = 0
  · have none : h.historyBws = [] := eq_nil_of_length_eq_zero (by rw [h.nodes, empty]; rfl)
    simp [readRecord, IpBwHistory.record, IpBwHistory.restored, empty, none, readTimes]
  · have bws := run_readBws h rest
    simp [readRecord, IpBwHistory.record, IpBwHistory.restored, empty, Machine.time_eq, bws]

theorem Machine.take_four (suits : m.longBytes = 4 ∨ m.order = .little) {n : ℕ} (h : n < 2 ^ 32) :
    (m.order.bytes m.longBytes n).take 4 = m.uint32 (UInt32.ofNat n) := by
  have number : (UInt32.ofNat n).toNat = n := UInt32.toNat_ofNat_of_lt' h
  rw [Machine.uint32, number]
  rcases suits with four | little
  · rw [four]
    exact take_of_length_le (by simp)
  · have wide : 4 ≤ m.longBytes := by
      rcases m.long_size with size | size <;> omega
    rw [little]
    exact take_lowFirst wide n

def OneRule (data : List (IpBwHistory m)) : Prop :=
  ∀ h ∈ data, ∀ h' ∈ data, h.resetInterval = h'.resetInterval ∧ h.resetTime = h'.resetTime ∧
    h.isConstantInterval = h'.isConstantInterval

/-- Histories written to a file are read back in the same order, up to the times of histories without nodes, and
nothing of the file is left. -/
theorem loadHistory_saveHistory (suits : m.longBytes = 4 ∨ m.order = .little) {data : List (IpBwHistory m)}
    (few : data.length < 2 ^ 32) (rule : OneRule data) :
    (loadHistoryFromFile m).run (saveHistoryToFile data) = some (data.map IpBwHistory.restored, []) := by
  rw [saveHistoryToFile, Machine.take_four suits few]
  cases data with
  | nil =>
    have count := m.run_readUInt32 0 []
    rw [append_nil] at count
    simp [loadHistoryFromFile, intervalHeader, count]
  | cons first others =>
    have number : (UInt32.ofNat (first :: others).length).toNat = (first :: others).length :=
      UInt32.toNat_ofNat_of_lt' few
    have some_ips : UInt32.ofNat (first :: others).length ≠ 0 := by
      intro zero
      rw [zero] at number
      simp at number
    -- every record is read with the interval parameters of the first one
    have one : ∀ h ∈ first :: others, ∀ rest,
        (readRecord (m := m) (ofBitVec (first.resetInterval.signExtend 64))
          (ofBitVec (first.resetTime.signExtend 64)) first.isConstantInterval).run (h.record ++ rest) =
        some (h.restored, rest) := by
      intro h mem rest
      obtain ⟨interval, time, constant⟩ := rule first (by simp) h mem
      rw [interval, time, constant]
      exact run_readRecord h rest
    have records := run_readTimes IpBwHistory.restored number.symm one []
    rw [append_nil] at records
    simp only [loadHistoryFromFile, intervalHeader, append_assoc, StateT.run_bind, Machine.run_readUInt32,
      Option.bind_eq_bind, Option.bind_some, some_ips, if_false, Machine.time_eq, Machine.run_readUInt64,
      singleton_append, Machine.run_readUInt8, records]
    rfl

/-- A machine with the high byte first and an `unsigned long` of four bytes. -/
def narrowMachine : Machine where
  order := .big
  longBytes := 4
  timeBits := 32
  long_size := .inl rfl
  time_size := .inl rfl

def threeHistories : List (IpBwHistory narrowMachine) :=
  [{ ip := 1, numNodes := 2, resetInterval := 60, resetTime := 5, isConstantInterval := 1, firstStart := 10,
     firstEnd := 20, lastEnd := 30, historyBws := [0x7ffffffe, 3], nodes := rfl },
   { ip := 2, numNodes := 0, resetInterval := 60, resetTime := 5, isConstantInterval := 1, firstStart := 10,
     firstEnd := 20, lastEnd := 30, historyBws := [], nodes := rfl },
   { ip := 3, numNodes := 2, resetInterval := 60, resetTime := 5, isConstantInterval := 1, firstStart := -1,
     firstEnd := 20, lastEnd := 30, historyBws := [0x7fffffff, 0xffffffffffffffff], nodes := rfl }]

theorem loadHistory_saveHistory_three :
    OneRule threeHistories ∧ (loadHistoryFromFile narrowMachine).run (saveHistoryToFile threeHistories) =
        some (threeHistories.map IpBwHistory.restored, []) := by
  have rule : OneRule threeHistories := by
    unfold OneRule
    decide
  exact ⟨rule, loadHistory_saveHistory (.inl rfl) (by decide) rule⟩

end OpenWifi.Bwctl
