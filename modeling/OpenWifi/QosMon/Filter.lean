import OpenWifi.Lib.Steps
import Mathlib.Tactic.Linarith

/-!
# The round trip filter of the QoS monitor

`qosmon` pings a host once in each turn of its main loop and filters the round trip time.  A lost ping counts as the
longest trip seen of late, which a reply raises, a measurement of the link replaces and the observing states lower.
-/

namespace OpenWifi.QosMon

/-- The arguments: the ping period in milliseconds, which `main` checks, the ping limit in milliseconds, which it does
not check, and the flag `-a`. -/
structure Arguments where
  period : ℕ
  pinglimit : ℕ
  addEntitlement : Bool
  le_period : 100 ≤ period
  period_le : period ≤ 2000
  pinglimit_le : pinglimit ≤ 800

inductive QState
  | chk | init | idle | active | realtime
  deriving DecidableEq

/-- The variables of the filter, `rawfltime` in milliseconds and the other times in microseconds. -/
structure Monitor where
  qstate : QState
  pingon : Bool
  nreceived : BitVec 16
  filTriptime : ℤ
  rawfltime : ℤ
  rawfltimeMax : ℤ
  pinglimit : ℤ

/-- The value of an `int` operation, `none` when it overflows. -/
def int (x : ℤ) : Option ℤ :=
  if -2 ^ 31 ≤ x ∧ x < 2 ^ 31 then some x else none

/-- The weight of a new sample in thousandths. -/
def alpha (period : ℕ) : ℤ :=
  ↑(period * 1000 / (period * 4 + period))

def filter (alpha rawfltime filTriptime : ℤ) : Option ℤ := do
  let scaled ← int (rawfltime * 1000)
  let error ← int (scaled - filTriptime)
  let product ← int (error * alpha)
  int (product.tdiv 1000 + filTriptime)

/-- An echo reply of this process: whether it answers the last ping, and how long it took. -/
structure Reply where
  latest : Bool
  triptime : ℕ

def prPack (a : Arguments) (m : Monitor) (r : Reply) : Monitor :=
  let m := { m with nreceived := m.nreceived + 1 }
  if r.latest then
    let rawfltime : ℤ := min r.triptime a.period
    { m with
      rawfltime
      rawfltimeMax := if rawfltime > m.rawfltimeMax.tdiv 1000 then rawfltime * 1000 else m.rawfltimeMax }
  else m

/-- What a turn of the main loop meets: the replies, whether the class list gave an error or another number of
classes, whether the filtered bandwidth is below 10 % and 15 % of the upper limit and 85 % of the current one, and
whether a realtime class is active. -/
structure Turn where
  replies : List Reply
  reset : Bool
  below10 : Bool
  below15 : Bool
  below85 : Bool
  realtime : Bool

/-- The code the states `QMON_ACTIVE` and `QMON_REALTIME` share. -/
def observe (a : Arguments) (m : Monitor) (t : Turn) : Monitor :=
  let active := !t.realtime && a.addEntitlement
  let plimit := if active then 135 * (a.pinglimit * 1000) / 100 + m.pinglimit else m.pinglimit
  let m := { m with
    pingon := true
    qstate := if t.below10 then .idle else if active then .active else .realtime }
  if m.filTriptime - plimit < 0 ∧ t.below85 then m
  else if m.rawfltimeMax > plimit then { m with rawfltimeMax := m.rawfltimeMax - 100 }
  else m

/-- The ping limit that the measurement of the unloaded link gives. -/
def measured (a : Arguments) (m : Monitor) : ℤ :=
  min (max (if a.addEntitlement then m.pinglimit + m.filTriptime * 11 / 10 else m.filTriptime * 2) 10000) 800000

def runState (a : Arguments) (m : Monitor) (t : Turn) : Monitor :=
  match m.qstate with
  | .chk =>
    let m := { m with pingon := true }
    if 2 ≤ m.nreceived.toNat then
      if m.pinglimit ≠ 0 ∧ ¬a.addEntitlement then { m with filTriptime := m.rawfltime * 1000, qstate := .idle }
      else { m with nreceived := 0, qstate := .init }
    else m
  | .init =>
    let m := if m.nreceived.toNat < 10000 / a.period + 1 then { m with filTriptime := m.rawfltime * 1000 } else m
    if m.nreceived.toNat > 15000 / a.period + 1 then
      { m with qstate := .idle, pinglimit := measured a m, rawfltimeMax := 2 * measured a m }
    else m
  | .idle => if t.below15 then { m with pingon := false } else observe a m t
  | .active | .realtime => observe a m t

/-- The filter update of a turn, where a missing reply counts as the maximum. -/
def update (a : Arguments) (m : Monitor) : Option Monitor :=
  let m := if m.rawfltime = 0 then { m with rawfltime := m.rawfltimeMax.tdiv 1000 } else m
  if m.pingon then (filter (alpha a.period) m.rawfltime m.filTriptime).map ({ m with filTriptime := · })
  else some m

/-- A turn of the main loop, `none` when the filter update overflows. -/
def turn (a : Arguments) (m : Monitor) (t : Turn) : Option Monitor :=
  let m := t.replies.foldl (prPack a) { m with rawfltime := 0 }
  if t.reset then some { m with pingon := false, qstate := .chk } else (update a m).map (runState a · t)

def start (a : Arguments) : Monitor where
  qstate := .chk
  pingon := false
  nreceived := 0
  filTriptime := 0
  rawfltime := 0
  rawfltimeMax := a.period * 1000
  pinglimit := a.pinglimit * 1000

structure Monitor.Bounded (m : Monitor) : Prop where
  filTriptime : 0 ≤ m.filTriptime ∧ m.filTriptime ≤ 2000000
  rawfltimeMax : 0 ≤ m.rawfltimeMax ∧ m.rawfltimeMax ≤ 2000000
  rawfltime : 0 ≤ m.rawfltime ∧ m.rawfltime ≤ 2000

/-- The bounds with what they rest on: the limit is whole milliseconds or measured, and no state that lowers the
maximum is entered without one. -/
structure Monitor.Valid (m : Monitor) : Prop extends m.Bounded where
  pinglimit_le : m.pinglimit ≤ 800000
  le_pinglimit : m.pinglimit = 0 ∧ (m.qstate = .chk ∨ m.qstate = .init) ∨ 1000 ≤ m.pinglimit

variable {a : Arguments} {m : Monitor}

theorem alpha_eq : alpha a.period = 200 := by
  have positive := a.le_period
  rw [alpha, Nat.div_eq_of_eq_mul_left (by omega) (show _ = 200 * _ by omega)]
  rfl

/-- The filtered time moves a fifth of the way to the sample, so it stays between the two. -/
theorem filter_bounded {raw fil : ℤ} (low : 0 ≤ raw) (high : raw ≤ 2000) (bounds : 0 ≤ fil ∧ fil ≤ 2000000) :
    ∃ fil', filter 200 raw fil = some fil' ∧ 0 ≤ fil' ∧ fil' ≤ 2000000 := by
  obtain ⟨below, above⟩ := bounds
  have between : 0 ≤ ((raw * 1000 - fil) * 200).tdiv 1000 + fil ∧
      ((raw * 1000 - fil) * 200).tdiv 1000 + fil ≤ 2000000 := by
    rw [Int.tdiv_eq_ediv, Int.sign_eq_one_of_pos (by decide)]
    split <;> omega
  refine ⟨_, ?_, between⟩
  simp only [filter, int, Option.bind_eq_bind]
  rw [if_pos (by omega), Option.bind_some, if_pos (by omega), Option.bind_some, if_pos (by omega), Option.bind_some,
    if_pos (by omega)]

namespace Monitor.Valid

theorem start : (start a).Valid := by
  have := a.period_le
  have := a.pinglimit_le
  constructor
  · constructor <;> simp only [QosMon.start] <;> omega
  all_goals simp only [QosMon.start]; grind

theorem prPack (valid : m.Valid) (r : Reply) : (prPack a m r).Valid := by
  have := a.period_le
  obtain ⟨⟨fil, max, raw⟩, limit, positive⟩ := valid
  unfold QosMon.prPack
  split
  · refine ⟨⟨fil, ?_, ?_⟩, limit, positive⟩ <;> grind
  · exact ⟨⟨fil, max, raw⟩, limit, positive⟩

theorem replies (valid : m.Valid) (rs : List Reply) : (rs.foldl (QosMon.prPack a) m).Valid := by
  induction rs generalizing m with
  | nil => exact valid
  | cons r rs ih => exact ih (valid.prPack r)

theorem observe (valid : m.Valid) (limit : 1000 ≤ m.pinglimit) (t : Turn) : (observe a m t).Valid := by
  obtain ⟨⟨fil, max, raw⟩, le, -⟩ := valid
  unfold QosMon.observe
  extract_lets active plimit m'
  have : m.pinglimit ≤ plimit := by grind
  split
  · exact ⟨⟨fil, max, raw⟩, le, .inr limit⟩
  split
  · refine ⟨⟨fil, ?_, raw⟩, le, .inr limit⟩
    grind
  · exact ⟨⟨fil, max, raw⟩, le, .inr limit⟩

theorem runState (valid : m.Valid) (t : Turn) : (runState a m t).Valid := by
  have ⟨⟨fil, max, raw⟩, le, positive⟩ := valid
  unfold QosMon.runState
  split
  next chk => grind [Monitor.Bounded, Monitor.Valid]
  next init => grind [Monitor.Bounded, Monitor.Valid, measured]
  next idle =>
    have limit : 1000 ≤ m.pinglimit := by grind
    split
    · exact ⟨⟨fil, max, raw⟩, le, .inr limit⟩
    · exact valid.observe limit t
  all_goals exact valid.observe (by grind) t

theorem update (valid : m.Valid) : ∃ m', update a m = some m' ∧ m'.Valid := by
  obtain ⟨⟨fil, max, raw⟩, le, positive⟩ := valid
  unfold QosMon.update
  extract_lets m'
  have sampled : m'.Valid := by
    have : 0 ≤ m.rawfltimeMax.tdiv 1000 ∧ m.rawfltimeMax.tdiv 1000 ≤ 2000 := by
      rw [Int.tdiv_eq_ediv_of_nonneg max.1]
      omega
    subst m'
    split
    · exact ⟨⟨fil, max, this⟩, le, positive⟩
    · exact ⟨⟨fil, max, raw⟩, le, positive⟩
  obtain ⟨⟨fil, max, raw⟩, le, positive⟩ := sampled
  split
  · obtain ⟨fil', eq, bounds⟩ := filter_bounded raw.1 raw.2 fil
    rw [alpha_eq, eq]
    exact ⟨_, rfl, ⟨bounds, max, raw⟩, le, positive⟩
  · exact ⟨_, rfl, ⟨fil, max, raw⟩, le, positive⟩

theorem turn (valid : m.Valid) (t : Turn) : ∃ m', turn a m t = some m' ∧ m'.Valid := by
  obtain ⟨⟨fil, max, -⟩, le, positive⟩ := valid
  have cleared : Valid { m with rawfltime := 0 } := ⟨⟨fil, max, le_rfl, by norm_num⟩, le, positive⟩
  have received := cleared.replies (a := a) t.replies
  unfold QosMon.turn
  dsimp only
  split
  · obtain ⟨⟨fil, max, raw⟩, le, positive⟩ := received
    exact ⟨_, rfl, ⟨fil, max, raw⟩, le, by grind⟩
  · obtain ⟨m', eq, valid⟩ := received.update (a := a)
    rw [eq]
    exact ⟨_, rfl, valid.runState t⟩

end Monitor.Valid

/-- Over any run of the main loop the filter update never overflows and the three times stay in their ranges. -/
theorem run_filter_bounded (a : Arguments) (turns : List Turn) :
    ∃ m, runFrom (turn a) (start a) turns = some m ∧ m.Bounded := by
  suffices h : ∀ m : Monitor, m.Valid → ∃ m', runFrom (turn a) m turns = some m' ∧ m'.Bounded from h _ .start
  induction turns with
  | nil => exact fun m valid => ⟨m, rfl, valid.1⟩
  | cons t turns ih =>
    intro m valid
    obtain ⟨m', eq, valid'⟩ := valid.turn (a := a) t
    rw [runFrom, eq]
    exact ih m' valid'

def everySecond : Arguments := ⟨1000, 20, true, by decide, by decide, by decide⟩

def answered (triptime : ℕ) : Turn := ⟨[⟨true, triptime⟩], false, false, false, false, false⟩

/-- Twenty answers, with which the link is measured, and the filter is where the last ones are. -/
theorem run_filter_bounded_answered :
    ∃ m, runFrom (turn everySecond) (start everySecond) (List.replicate 20 (answered 30)) = some m ∧
      m.qstate = .active ∧ m.filTriptime = 30000 ∧ m.Bounded := by
  have run : (runFrom (turn everySecond) (start everySecond) (List.replicate 20 (answered 30))).map
      (fun m => (m.qstate, m.filTriptime)) = some (.active, 30000) := by decide +kernel
  obtain ⟨m, eq, bounded⟩ := run_filter_bounded everySecond (List.replicate 20 (answered 30))
  rw [eq] at run
  obtain ⟨state, time⟩ := Prod.mk.inj (Option.some.inj run)
  exact ⟨m, eq, state, time, bounded⟩

end OpenWifi.QosMon
