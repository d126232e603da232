import Mathlib.Data.Int.Notation
import Mathlib.Tactic.Common

/-!
# The timers of `capwap_timeout.c`

Pending timers are in a list (`itemstimeout`), which is meant to be in the order in which they expire, and in a hash
table by index (`itemsreference`).  Clock values and durations are integers here; the `long` of the source does not
overflow with them as long as they are below `2 ^ 62` ms.
-/

namespace OpenWifi.CapwapTimeout

open Function (update)

/-- `struct timeval`, as `gettimeofday` fills it. -/
structure Timeval where
  sec : ℤ
  usec : ℕ
  usec_lt : usec < 1000000
  deriving DecidableEq

def Timeval.micros (time : Timeval) : ℤ := time.sec * 1000000 + time.usec

/-- `capwap_timeout_getdelta`, in milliseconds. -/
def getdelta (time1 time2 : Timeval) : ℤ :=
  (time1.sec - time2.sec) * 1000 + ((time1.usec : ℤ) - time2.usec).tdiv 1000

/-- `capwap_timeout_setexpire`.  The milliseconds over whole seconds are added to microseconds. -/
def setexpire (durate : ℕ) (now : Timeval) : Timeval :=
  if carry : now.usec + durate % 1000 < 1000000 then
    { sec := now.sec + (durate / 1000 : ℕ), usec := now.usec + durate % 1000, usec_lt := carry }
  else
    { sec := now.sec + (durate / 1000 : ℕ) + 1, usec := now.usec + durate % 1000 - 1000000
      usec_lt := by have := now.usec_lt; omega }

/-- `struct capwap_timeout_item` in its item of the list, which has the address `node`; `action` is the
callback with its arguments. -/
structure Item (α : Type*) where
  node : ℕ
  index : ℕ
  durate : ℕ
  expire : Timeval
  action : α
  deriving DecidableEq

/-- `struct capwap_timeout`; `bitfield` are the indexes in use, less one. -/
structure Timeout (α : Type*) where
  bitfield : ℕ → Bool
  itemsreference : ℕ → Option ℕ
  itemstimeout : List (Item α)

variable {α : Type*}

/-- The loop of `capwap_timeout_additem`: `done` are the items in front of `last`.  The new item goes before `last`, or
to the front when there is no `last`. -/
def additemLoop (item : Item α) : List (Item α) → Option (Item α) → List (Item α) → List (Item α)
  | done, last, [] => done ++ last.toList ++ [item]
  | done, last, search :: rest =>
    if getdelta item.expire search.expire < 0 then done ++ item :: (last.toList ++ search :: rest)
    else additemLoop item (done ++ last.toList) (some search) rest

/-- `capwap_timeout_additem`. -/
def additem (item : Item α) (itemstimeout : List (Item α)) : List (Item α) :=
  additemLoop item [] none itemstimeout

namespace Timeout

variable (t : Timeout α)

/-- `capwap_timeout_createtimer`: the first index that is free, 0 when there is none. -/
def createtimer : Timeout α × ℕ :=
  match (List.range 4096).find? fun i => !t.bitfield i with
  | some i => ({ t with bitfield := update t.bitfield i true }, i + 1)
  | none => (t, 0)

/-- `capwap_timeout_unset`; `none` when the reference is not an item of the list. -/
def unset (index : ℕ) : Option (Timeout α) :=
  if index = 0 then some t
  else match t.itemsreference index with
    | none => some t
    | some node =>
      if t.itemstimeout.any (·.node = node) then
        some { t with
          itemsreference := update t.itemsreference index none
          itemstimeout := t.itemstimeout.filter (·.node ≠ node) }
      else none

/-- `capwap_timeout_deletetimer`. -/
def deletetimer (index : ℕ) : Option (Timeout α) :=
  if index = 0 then some t
  else (t.unset index).map fun t => { t with bitfield := update t.bitfield (index - 1) false }

/-- The part of `capwap_timeout_set` for a timer that is not pending. -/
def insert (item : Item α) : Timeout α :=
  { t with
    itemsreference := update t.itemsreference item.index (some item.node)
    itemstimeout := additem item t.itemstimeout }

/-- The part of `capwap_timeout_set` for a pending timer. -/
def renew (old : Item α) (durate : ℕ) (action : α) (now : Timeval) : Timeout α :=
  { t with
    itemstimeout := additem { old with durate := durate, expire := setexpire durate now, action := action }
      (t.itemstimeout.filter (·.node ≠ old.node)) }

/-- `capwap_timeout_set`, with the time that `gettimeofday` gives and the memory for a new item. -/
def set (index durate : ℕ) (action : α) (now : Timeval) (node : ℕ) : Option (Timeout α × ℕ) :=
  let new (t : Timeout α) (index : ℕ) : Option (Timeout α × ℕ) :=
    if t.itemstimeout.any (·.node = node) then none
    else some (t.insert { node := node, index := index, durate := durate, expire := setexpire durate now
                          action := action }, index)
  if index = 0 then new t.createtimer.1 t.createtimer.2
  else match t.itemsreference index with
    | some node => (t.itemstimeout.find? (·.node = node)).map fun old => (t.renew old durate action now, index)
    | none => new t index

/-- `capwap_timeout_unsetall`. -/
def unsetall : Timeout α :=
  { t with itemsreference := fun _ => none, itemstimeout := [] }

variable (now : Timeval)

/-- The loop of `capwap_timeout_getcoming` that sets all the timers anew. -/
def recalculate : Timeout α :=
  { t with itemstimeout := t.itemstimeout.map fun item =>
      { item with expire := setexpire item.durate now } }

/-- `capwap_timeout_getcoming`; -1 is `CAPWAP_TIMEOUT_INFINITE`. -/
def getcoming : Timeout α × ℤ :=
  match t.itemstimeout with
  | [] => (t, -1)
  | item :: _ =>
    let delta := getdelta item.expire now
    if delta ≤ 0 then (t, 0)
    else if delta ≤ item.durate then (t, delta)
    else (t.recalculate now, item.durate)

/-- `capwap_timeout_hasexpired`, with the timer whose callback is called. -/
def hasexpired : Timeout α × Option (Item α) :=
  let delta := (t.getcoming now).2
  let t := (t.getcoming now).1
  if 0 < delta ∨ delta = -1 then (t, none)
  else match t.itemstimeout with
    | [] => (t, none)
    | item :: rest =>
      ({ t with itemsreference := update t.itemsreference item.index none, itemstimeout := rest }, some item)

/-- The calls.  A callback that `capwap_timeout_hasexpired` runs makes its own calls after it. -/
inductive Event (α : Type*)
  | createtimer
  | deletetimer (index : ℕ)
  | set (index durate : ℕ) (action : α) (now : Timeval) (node : ℕ)
  | unset (index : ℕ)
  | unsetall
  | getcoming (now : Timeval)
  | hasexpired (now : Timeval)

def step : Event α → Option (Timeout α)
  | .createtimer => some t.createtimer.1
  | .deletetimer index => t.deletetimer index
  | .set index durate action now node => (t.set index durate action now node).map (·.1)
  | .unset index => t.unset index
  | .unsetall => some t.unsetall
  | .getcoming now => some (t.getcoming now).1
  | .hasexpired now => some (t.hasexpired now).1

/-- `capwap_timeout_init`. -/
def init : Timeout α where
  bitfield := fun _ => false
  itemsreference := fun _ => none
  itemstimeout := []

end Timeout

end OpenWifi.CapwapTimeout
