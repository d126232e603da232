import OpenWifi.Bwctl.Query

/-!
# Giving records back to the kernel

`set_bandwidth_data` fills one buffer after the other; a record that does not fit into an empty buffer is tried again
for ever.  `set_ip_block` moves the times of a history by minutes instead of seconds.
-/

namespace OpenWifi.Bwctl

open List Option

variable {m : Machine} {clock : Clock m}

/-- The time that `set_ip_block` writes. -/
def Clock.setting (clock : Clock m) (time : m.Time) : m.Time :=
  time + BitVec.ofInt m.timeBits (clock.getMinutesWest time - clock.getMinutesWest clock.now)

/-- `block_length`. -/
def Cell.blockLength : Cell m → UInt32
  | .usage _ => 12
  | .history h => 2 * 4 + 3 * 8 + 8 * h.numNodes

/-- What `set_ip_block` writes. -/
def Cell.block (clock : Clock m) : Cell m → List UInt8
  | .usage e => m.uint32 e.ip ++ m.uint64 e.bw
  | .history h =>
    m.uint32 h.ip ++ m.uint32 h.numNodes ++ m.time (clock.setting h.firstStart) ++ m.time (clock.setting h.firstEnd) ++
      m.time (clock.setting h.lastEnd) ++ h.historyBws.flatMap m.uint64

/-- The fields before the blocks. -/
def headerLength : ℕ := 3 * 4 + 2 * 1 + 8 + 50

/-- `set_ip_block`: whether the buffer is full, and the blocks.  A block behind the end of the buffer has no result. -/
def setIpBlock (clock : Clock m) (cell : Cell m) (body : List UInt8) : Option (Bool × List UInt8) :=
  if bandwidthQueryLength < (UInt32.ofNat (headerLength + body.length) + cell.blockLength).toNat then some (true, body)
  else if headerLength + body.length + (cell.block clock).length ≤ bandwidthQueryLength then
    some (false, body ++ cell.block clock)
  else none

/-- A buffer for `BANDWIDTH_SET`: `num_ips_in_buffer` and the blocks. -/
structure Sent where
  number : ℕ
  body : List UInt8

/-- The inner loop, with the records that are left for the next buffer. -/
def fillBuffer (clock : Clock m) : List (Cell m) → Sent → Option (Sent × List (Cell m))
  | [], buf => some (buf, [])
  | cell :: cells, buf => do
    let (full, body) ← setIpBlock clock cell buf.body
    if full then return (buf, cell :: cells)
    fillBuffer clock cells ⟨buf.number + 1, body⟩

/-- The outer loop. -/
def sendLoop (clock : Clock m) : ℕ → List (Cell m) → Option (List Sent)
  | 0, _ => none
  | fuel + 1, cells => do
    let (buf, rest) ← fillBuffer clock cells ⟨0, []⟩
    if rest.isEmpty then return [buf]
    let more ← sendLoop clock fuel rest
    return buf :: more

/-- `set_bandwidth_data` with the lock held and the socket open; `*total_ips` has 32 bits. -/
def setBandwidthData (clock : Clock m) (cells : List (Cell m)) (fuel : ℕ) : Option (List Sent) :=
  sendLoop clock fuel (cells.take (cells.length % 2 ^ 32))

def Sent.of (clock : Clock m) (part : List (Cell m)) : Sent := ⟨part.length, part.flatMap (Cell.block clock)⟩

/-- The blocks of the part do not cross the end of the buffer. -/
def Fits (clock : Clock m) (part : List (Cell m)) : Prop :=
  headerLength + (part.flatMap (Cell.block clock)).length ≤ bandwidthQueryLength

/-- The call ends, and the buffers hold the records in order. -/
def SendsAll (clock : Clock m) (cells : List (Cell m)) : Prop :=
  ∃ fuel, ∃ parts : List (List (Cell m)), setBandwidthData clock cells fuel = some (parts.map (Sent.of clock)) ∧
  parts.flatten = cells ∧
    ∀ part ∈ parts, Fits clock part

variable {cell : Cell m} {cells part : List (Cell m)}

theorem Cell.length_block_history (h : IpBwHistory m) :
    (Cell.block clock (.history h)).length = 32 + h.numNodes.toNat * 8 := by
  have eight (x : UInt64) : (m.uint64 x).length = 8 := m.order.length_bytes 8 _
  have times (t : m.Time) : (m.time t).length = 8 := m.order.length_bytes 8 _
  have nodes : (h.historyBws.flatMap m.uint64).length = h.numNodes.toNat * 8 := by
    rw [length_flatMap, map_congr_left fun x _ => eight x, map_const', sum_replicate_nat, h.nodes]
  simp only [block, length_append, Machine.length_uint32, times, nodes]

theorem Cell.blockLength_eq (clock : Clock m) (cell : Cell m) :
    cell.blockLength = UInt32.ofNat (cell.block clock).length := by
  cases cell with
  | usage e =>
    have eight (x : UInt64) : (m.uint64 x).length = 8 := m.order.length_bytes 8 _
    simp [block, blockLength, eight]
  | history h =>
    rw [length_block_history, blockLength]
    apply UInt32.toNat_inj.1
    simp
    omega

instance (clock : Clock m) (part : List (Cell m)) : Decidable (Fits clock part) := inferInstanceAs (Decidable (_ ≤ _))

theorem fits_nil (clock : Clock m) : Fits clock [] := by simp [Fits, headerLength, bandwidthQueryLength]

theorem setIpBlock_eq (start : Fits clock part) (own : Fits clock [cell]) :
    setIpBlock clock cell (part.flatMap (Cell.block clock)) =
      if Fits clock (part ++ [cell]) then some (false, (part ++ [cell]).flatMap (Cell.block clock))
      else some (true, part.flatMap (Cell.block clock)) := by
  simp only [Fits, flatMap_append, flatMap_singleton, length_append, bandwidthQueryLength, headerLength] at own start ⊢
  have whole : (UInt32.ofNat
    (3 * 4 + 2 * 1 + 8 + 50 + (part.flatMap (Cell.block clock)).length) + cell.blockLength).toNat =
      3 * 4 + 2 * 1 + 8 + 50 + (part.flatMap (Cell.block clock)).length + (cell.block clock).length := by
    rw [cell.blockLength_eq clock, ← UInt32.ofNat_add, UInt32.toNat_ofNat', Nat.mod_eq_of_lt (by omega)]
  rw [setIpBlock, headerLength, bandwidthQueryLength, whole]
  split_ifs <;> first | rfl | omega

theorem Sent.of_concat (part : List (Cell m)) (cell : Cell m) :
    Sent.of clock (part ++ [cell]) = ⟨part.length + 1, (part ++ [cell]).flatMap (Cell.block clock)⟩ := by
  simp [Sent.of]

theorem fillBuffer_spec (fits : ∀ cell ∈ cells, Fits clock [cell]) (start : Fits clock part) :
    ∃ more rest, cells = more ++ rest ∧
    fillBuffer clock cells (.of clock part) = some (.of clock (part ++ more), rest) ∧
      Fits clock (part ++ more) ∧ (part = [] → more = [] → cells = []) := by
  induction cells generalizing part with
  | nil => exact ⟨[], [], rfl, by rw [append_nil, fillBuffer], by rwa [append_nil], fun _ _ => rfl⟩
  | cons cell cells ih =>
    have set := setIpBlock_eq start (fits cell mem_cons_self)
    by_cases room : Fits clock (part ++ [cell])
    · obtain ⟨more, rest, rfl, filled, inside, -⟩ := ih (fun c mem => fits c (mem_cons_of_mem _ mem)) room
      rw [if_pos room] at set
      rw [append_assoc, Sent.of_concat] at filled
      rw [append_assoc] at inside
      exact ⟨cell :: more, rest, rfl, bind_eq_some_iff.2 ⟨_, set, filled⟩, inside, fun _ => nofun⟩
    · rw [if_neg room] at set
      refine ⟨[], cell :: cells, rfl, ?_, by rwa [append_nil], ?_⟩
      · rw [append_nil]
        exact bind_eq_some_iff.2 ⟨_, set, rfl⟩
      · rintro rfl
        exact absurd (fits cell mem_cons_self) room

theorem exists_sendLoop {fuel : ℕ} (enough : cells.length ≤ fuel) (fits : ∀ cell ∈ cells, Fits clock [cell]) :
    ∃ parts : List (List (Cell m)), sendLoop clock (fuel + 1) cells = some (parts.map (.of clock)) ∧
    parts.flatten = cells ∧
      ∀ part ∈ parts, Fits clock part := by
  induction fuel generalizing cells with
  | zero =>
    obtain rfl := length_eq_zero_iff.1 (Nat.le_zero.1 enough)
    exact ⟨[[]], rfl, rfl, by simpa using fits_nil clock⟩
  | succ fuel ih =>
    obtain ⟨part, rest, rfl, filled, inside, progress⟩ := fillBuffer_spec fits (fits_nil clock)
    cases rest with
    | nil => exact ⟨[part], bind_eq_some_iff.2 ⟨_, filled, rfl⟩, by simp, by simpa using inside⟩
    | cons cell rest =>
      have shorter : (cell :: rest).length ≤ fuel := by
        have := length_pos_of_ne_nil fun none => absurd (progress rfl none) (by simp)
        rw [length_append] at enough
        omega
      obtain ⟨parts, run, flat, fitsParts⟩ := ih shorter fun c mem => fits c (mem_append_right _ mem)
      exact ⟨part :: parts, bind_eq_some_iff.2 ⟨_, filled, bind_eq_some_iff.2 ⟨_, run, rfl⟩⟩,
        by rw [flatten_cons, flat],
        forall_mem_cons.2 ⟨inside, fitsParts⟩⟩

theorem number_fillBuffer {buf buf' : Sent} {rest : List (Cell m)}
    (filled : fillBuffer clock cells buf = some (buf', rest)) :
    buf'.number + rest.length = buf.number + cells.length := by
  induction cells generalizing buf with
  | nil =>
    cases filled
    rfl
  | cons cell cells ih =>
    obtain ⟨⟨full, body⟩, -, filled⟩ := bind_eq_some_iff.1 filled
    cases full with
    | true =>
      cases filled
      rfl
    | false =>
      have counted : buf'.number + rest.length = buf.number + 1 + cells.length := ih filled
      rw [counted, length_cons]
      omega

theorem number_sendLoop {fuel : ℕ} {sent : List Sent} (run : sendLoop clock fuel cells = some sent) :
    (sent.map Sent.number).sum = cells.length := by
  induction fuel generalizing cells sent with
  | zero => exact absurd run nofun
  | succ fuel ih =>
    obtain ⟨⟨buf, rest⟩, filled, run⟩ := bind_eq_some_iff.1 run
    have number := number_fillBuffer filled
    cases rest with
    | nil =>
      cases run
      simpa using number
    | cons cell rest =>
      obtain ⟨more, next, run⟩ := bind_eq_some_iff.1 run
      cases run
      rw [map_cons, sum_cons, ih next]
      simpa using number

theorem SendsAll.fits (all : SendsAll clock cells) : ∀ cell ∈ cells, Fits clock [cell] := by
  obtain ⟨fuel, parts, -, rfl, fits⟩ := all
  intro cell mem
  obtain ⟨part, memPart, mem⟩ := mem_flatten.1 mem
  have := fits part memPart
  obtain ⟨front, back, rfl⟩ := append_of_mem mem
  simp only [Fits, flatMap_append, flatMap_cons, flatMap_nil, length_append, append_nil] at this ⊢
  omega

theorem sendsAll_iff (clock : Clock m) (cells : List (Cell m)) :
    SendsAll clock cells ↔ (∀ cell ∈ cells, Fits clock [cell]) ∧ cells.length < 2 ^ 32 := by
  constructor
  · intro all
    refine ⟨all.fits, ?_⟩
    obtain ⟨fuel, parts, run, flat, -⟩ := all
    have number := number_sendLoop run
    have lengths : parts.flatten.length = ((parts.map (Sent.of clock)).map Sent.number).sum := by
      rw [length_flatten, List.map_map]
      rfl
    rw [← lengths, flat, length_take] at number
    have := Nat.mod_lt cells.length (show 0 < 2 ^ 32 by decide)
    omega
  · rintro ⟨fits, few⟩
    obtain ⟨parts, run, flat, fitsParts⟩ := exists_sendLoop (le_refl cells.length) fits
    refine ⟨cells.length + 1, parts, ?_, flat, fitsParts⟩
    rw [setBandwidthData, Nat.mod_eq_of_lt few, take_length, run]

/-- A history with 2036 nodes, one more than fit behind the fields of a buffer. -/
def longHistory : IpBwHistory lowMachine where
  ip := 0x0100a8c0
  numNodes := 2036
  resetInterval := 0
  resetTime := 0
  isConstantInterval := 0
  firstStart := 0
  firstEnd := 0
  lastEnd := 0
  historyBws := List.replicate 2036 0
  nodes := length_replicate

theorem not_sendsAll_longHistory : ¬ SendsAll utcClock [.history longHistory] := by
  intro all
  have fits := all.fits _ (mem_singleton.2 rfl)
  rw [Fits, flatMap_singleton, Cell.length_block_history] at fits
  exact absurd fits (by decide)

/-- The values that are written for a history from the kernel are those that the kernel sent. -/
def TimesReturned (clock : Clock m) (rule : Rule) (e : KernelEntry) : Prop :=
  ∃ h, (parseReturnedIpData clock 1 rule.resetInterval rule.resetTime rule.isConstantInterval).run (e.block m 1) =
      some (.history h, []) ∧ m.time (clock.setting h.firstStart) = m.uint64 e.firstStart ∧
    m.time (clock.setting h.firstEnd) = m.uint64 e.firstEnd ∧ m.time (clock.setting h.lastEnd) = m.uint64 e.lastEnd

/-- The offset at the time is the current one, and the time can be stored in a `time_t`. -/
def Clock.Keeps (clock : Clock m) (t : UInt64) : Prop :=
  clock.getMinutesWest (m.toTime t) = clock.getMinutesWest clock.now ∧ (m.toTime t).signExtend 64 = t.toBitVec

theorem Machine.uint64_inj {x y : UInt64} : m.uint64 x = m.uint64 y ↔ x = y := by
  refine ⟨fun same => ?_, fun same => by rw [same]⟩
  have read := m.run_readUInt64 x []
  rw [same, m.run_readUInt64] at read
  exact (Prod.mk.inj (some.inj read)).1.symm

theorem Clock.setting_shifted {time : m.Time}
    (stable : clock.getMinutesWest (clock.shifted time) = clock.getMinutesWest time) :
    clock.setting (clock.shifted time) =
      time + BitVec.ofInt m.timeBits (61 * (clock.getMinutesWest time - clock.getMinutesWest clock.now)) := by
  rw [Clock.setting, stable, Clock.shifted, BitVec.add_assoc, ← BitVec.ofInt_add]
  congr 2
  omega

theorem Clock.time_setting_eq_iff {t : UInt64}
    (stable : clock.getMinutesWest (clock.shifted (m.toTime t)) = clock.getMinutesWest (m.toTime t)) :
    m.time (clock.setting (clock.shifted (m.toTime t))) = m.uint64 t ↔ clock.Keeps t := by
  have here := abs_lt.1 (clock.abs_getMinutesWest clock.now)
  have there := abs_lt.1 (clock.abs_getMinutesWest (m.toTime t))
  rw [clock.setting_shifted stable, m.time_eq, Machine.uint64_inj, Clock.Keeps]
  constructor
  · intro same
    have unchanged := congrArg m.toTime same
    rw [m.toTime_signExtend, Machine.add_ofInt_eq_self (by omega)] at unchanged
    have zero : clock.getMinutesWest (m.toTime t) - clock.getMinutesWest clock.now = 0 := by omega
    rw [(Machine.add_ofInt_eq_self (by omega)).2 (by omega)] at same
    exact ⟨by omega, congrArg UInt64.toBitVec same⟩
  · rintro ⟨equal, kept⟩
    rw [(Machine.add_ofInt_eq_self (by omega)).2 (by omega), kept]

theorem timesReturned_iff (rule : Rule) (e : KernelEntry) (stable : ∀ t ∈ [e.firstStart, e.firstEnd, e.lastEnd],
      clock.getMinutesWest (clock.shifted (m.toTime t)) = clock.getMinutesWest (m.toTime t)) :
    TimesReturned clock rule e ↔ ∀ t ∈ [e.firstStart, e.firstEnd, e.lastEnd], clock.Keeps t := by
  have parsed := run_parseReturnedIpData clock 1 rule e []
  rw [append_nil, Rule.cellWith, if_neg (by decide)] at parsed
  simp only [forall_mem_cons] at stable ⊢
  obtain ⟨start, first, last, -⟩ := stable
  rw [← clock.time_setting_eq_iff start, ← clock.time_setting_eq_iff first, ← clock.time_setting_eq_iff last,
    TimesReturned, parsed]
  constructor
  · rintro ⟨h, same, times⟩
    cases same
    exact ⟨times.1, times.2.1, times.2.2, fun _ mem => absurd mem not_mem_nil⟩
  · exact fun times => ⟨_, rfl, times.1, times.2.1, times.2.2.1⟩

theorem timesReturned_iff_utc : TimesReturned utcClock twoAddresses (usageEntry 1 1) := by
  have zero (time : lowMachine.Time) : utcClock.getMinutesWest time = 0 := by
    simp [Clock.getMinutesWest, utcClock, midnight]
  refine (timesReturned_iff _ _ (by simp [zero])).2 ?_
  simp [usageEntry, Clock.Keeps, zero]
  rfl

/-- A clock one hour east of UTC up to the time 9, and then at UTC: the time 5 comes back 3660 seconds earlier. -/
def summerClock : Clock lowMachine where
  now := 10
  gmtime _ := midnight
  localtime time := if time.toInt < 10 then { midnight with hour := 1, hour_range := by decide } else midnight

def summerEntry : KernelEntry := { usageEntry 1 1 with firstStart := 5, firstEnd := 6, lastEnd := 7 }

theorem not_timesReturned_summer : (∀ t ∈ [summerEntry.firstStart, summerEntry.firstEnd, summerEntry.lastEnd],
      summerClock.getMinutesWest (summerClock.shifted (lowMachine.toTime t)) =
        summerClock.getMinutesWest (lowMachine.toTime t)) ∧ ¬ TimesReturned summerClock twoAddresses summerEntry := by
  refine ⟨?_, ?_⟩
  · simp only [forall_mem_cons, not_mem_nil, false_implies, implies_true]
    decide +kernel
  rintro ⟨h, parsed, start, -⟩
  have known := run_parseReturnedIpData summerClock 1 twoAddresses summerEntry []
  rw [append_nil, parsed, Rule.cellWith, if_neg (by decide)] at known
  cases known
  exact absurd start (by decide +kernel)

end OpenWifi.Bwctl
