import OpenWifi.Lib.Steps
import Mathlib.Data.List.FinRange

/-!
# The pending requests of the WTP

The WTP keeps a request that waits for its response in one of 15 boxes (`WTPRetransmission.c`).  The number in a box
without a timer is 0, the number of the first timer of the program.
-/

namespace OpenWifi.OpenCapwap

open List Option
open Function (update update_self update_of_ne forall_update_iff)

/-- `CWPendingRequestMessage`; `timerArg` is the address of the argument.  Not in the source: `waiting`, the request is
neither answered nor given up, and `used`, the box has had a timer. -/
structure PendingBox where
  msgType : ℕ
  seqNum : ℕ
  timerSec : ℤ
  timerHdl : Bool
  timerArg : Option ℕ
  timer : ℤ
  retransmission : ℤ
  msgElems : Option (List (List UInt8))
  fragmentsNum : ℕ
  waiting : Bool
  used : Bool

/-- A timer of `timerlib.c`: its number, the box that has added it (`none` for another part of the program) and the
argument. -/
structure QueuedTimer where
  id : ℤ
  owner : Option (Fin 15)
  arg : Option ℕ
  deriving DecidableEq

/-- The boxes, the queue with the next number, and the arguments: each is the index of a box, or has been freed. -/
structure PendingRequests where
  boxes : Fin 15 → PendingBox
  queue : List QueuedTimer
  curId : ℤ
  args : ℕ → Option (Fin 15)
  nextArg : ℕ

def PendingBox.initial : PendingBox where
  msgType := 0
  seqNum := 0
  timerSec := 0
  timerHdl := false
  timerArg := none
  timer := 0
  retransmission := 0
  msgElems := none
  fragmentsNum := 0
  waiting := false
  used := false

namespace PendingRequests

def start : PendingRequests where
  boxes := fun _ => .initial
  queue := []
  curId := 0
  args := fun _ => none
  nextArg := 0

def enqueue (owner : Option (Fin 15)) (arg : Option ℕ) (s : PendingRequests) : PendingRequests :=
  { s with queue := s.queue ++ [⟨s.curId, owner, arg⟩], curId := s.curId + 1 }

/-- `timer_add`; `memory` says whether there is memory for the timer. -/
def timerAdd (memory : Bool) (sec : ℤ) (hdl : Bool) (owner : Option (Fin 15)) (arg : Option ℕ) (s : PendingRequests) :
    ℤ × PendingRequests :=
  if hdl ∧ 0 < sec ∧ memory then (s.curId, s.enqueue owner arg) else (-1, s)

/-- `timer_rem`. -/
def timerRem (id : ℤ) (s : PendingRequests) : PendingRequests := { s with queue := s.queue.eraseP (·.id = id) }

/-- `CW_FREE_OBJECT` for an argument; `none` when it has been freed already. -/
def freeArg (arg : Option ℕ) (s : PendingRequests) : Option PendingRequests :=
  match arg with
  | none => some s
  | some p => if s.args p = none then none else some { s with args := update s.args p none }

def setBox (k : Fin 15) (box : PendingBox) (s : PendingRequests) : PendingRequests :=
  { s with boxes := update s.boxes k box }

/-- `CWResetPendingMsgBox`; `none` when memory is freed twice or `NULL` is dereferenced. -/
def resetPendingMsgBox (k : Fin 15) (s : PendingRequests) : Option PendingRequests :=
  let box := s.boxes k
  (freeArg box.timerArg s).bind fun s =>
    if box.msgElems = none ∧ box.fragmentsNum ≠ 0 then none
    else
      some ((timerRem box.timer s).setBox k { box with
          msgType := 0
          seqNum := 0
          retransmission := 0
          timerSec := 0
          timerHdl := false
          timerArg := none
          msgElems := none
          fragmentsNum := 0
          waiting := false })

/-- The search of `CWFindFreePendingMsgBox`. -/
def findFree (s : PendingRequests) : Option (Fin 15) := (List.finRange 15).find? fun k => (s.boxes k).msgType = 0

/-- `CWFindFreePendingMsgBox`, as `CWSendPendingRequestMessage` uses it. -/
def findFreePendingMsgBox (s : PendingRequests) : Option PendingRequests :=
  match s.findFree with
  | none => some s
  | some k => resetPendingMsgBox k s

/-- `CWUpdatePendingMsgBox` with an argument that has just been allocated for the box. -/
def updatePendingMsgBox (k : Fin 15) (msgType seqNum : ℕ) (timerSec retransmission : ℤ) (msgElems : List (List UInt8))
    (memory : Bool) (s : PendingRequests) : PendingRequests :=
  let arg := s.nextArg
  let s := { s with args := update s.args arg (some k), nextArg := s.nextArg + 1 }
  if (s.boxes k).msgType ≠ 0 then s
  else
    let (timer, s) := timerAdd memory timerSec true (some k) (some arg) s
    s.setBox k
      { msgType := msgType % 256
        seqNum := seqNum % 256
        timerSec := timerSec
        timerHdl := true
        timerArg := some arg
        timer := timer
        retransmission := retransmission
        msgElems := some msgElems
        fragmentsNum := msgElems.length
        waiting := true
        used := true }

/-- The search of `CWFindPendingRequestMsgsBox`. -/
def findPending (msgType seqNum : ℕ) (s : PendingRequests) : Option (Fin 15) :=
  (List.finRange 15).find? fun k => (s.boxes k).seqNum = seqNum ∧ (s.boxes k).msgType = msgType

/-- `CWFindPendingRequestMsgsBox`. -/
def findPendingRequestMsgsBox (msgType seqNum : ℕ) (s : PendingRequests) : PendingRequests :=
  match s.findPending msgType seqNum with
  | none => s
  | some k => (timerRem (s.boxes k).timer s).setBox k { s.boxes k with waiting := false }

variable (maxRetransmit : ℤ)

/-- `CWWTPRetransmitTimerExpiredHandler`, when the network takes `delivered` packets; `none` when freed memory or `NULL`
is used. -/
def retransmitTimerExpiredHandler (arg : Option ℕ) (delivered : ℕ) (memory : Bool)
    (s : PendingRequests) : Option PendingRequests :=
  (arg.bind s.args).bind fun index =>
    let box := s.boxes index
    if box.retransmission = maxRetransmit then some (s.setBox index { box with waiting := false })
    else if box.msgElems = none ∧ box.fragmentsNum ≠ 0 then none
    else if box.fragmentsNum ≤ delivered then
      let (timer, s) := timerAdd memory box.timerSec box.timerHdl (some index) box.timerArg s
      freeArg arg (s.setBox index { box with retransmission := box.retransmission + 1, timer := timer })
    else freeArg arg (s.setBox index { box with msgElems := none, waiting := false })

inductive BoxOp
  | reserve
  | update (k : Fin 15) (msgType seqNum : ℕ) (timerSec retransmission : ℤ) (msgElems : List (List UInt8))
    (memory : Bool)
  | answer (msgType seqNum : ℕ)
  | reset (k : Fin 15)
  | expire (id : ℤ) (delivered : ℕ) (memory : Bool)
  | otherAdd
  | otherRem (id : ℤ)

def timerOf (id : ℤ) (s : PendingRequests) : Option QueuedTimer := s.queue.find? (·.id = id)

/-- One operation; `none` when memory that has been freed or `NULL` is used. -/
def step (s : PendingRequests) : BoxOp → Option PendingRequests
  | .reserve => findFreePendingMsgBox s
  | .update k msgType seqNum timerSec retransmission msgElems memory =>
    some (updatePendingMsgBox k msgType seqNum timerSec retransmission msgElems memory s)
  | .answer msgType seqNum => some (findPendingRequestMsgsBox msgType seqNum s)
  | .reset k => resetPendingMsgBox k s
  | .expire id delivered memory =>
    match s.timerOf id with
    | none => some s
    | some t =>
      match t.owner with
      | none => some (timerRem id s)
      | some _ => retransmitTimerExpiredHandler maxRetransmit t.arg delivered memory (timerRem id s)
  | .otherAdd => some (s.enqueue none none)
  | .otherRem id =>
    match s.timerOf id with
    | none => some s
    | some t => if t.owner = none then some (timerRem id s) else some s

def touched (s : PendingRequests) : BoxOp → Option (Fin 15)
  | .reserve => s.findFree
  | .update k _ _ _ _ _ _ => some k
  | .answer msgType seqNum => s.findPending msgType seqNum
  | .reset k => some k
  | .expire id _ _ => (s.timerOf id).bind (·.owner)
  | .otherAdd => none
  | .otherRem _ => none

def timersOf (o : Option (Fin 15)) (s : PendingRequests) : List QueuedTimer := s.queue.filter (·.owner = o)

structure Untouched (k : Option (Fin 15)) (s s' : PendingRequests) : Prop where
  boxes : ∀ j, some j ≠ k → s'.boxes j = s.boxes j
  timers : ∀ o, o ≠ k → s'.timersOf o = s.timersOf o
  args : ∀ p j, some j ≠ k → s.args p = some j → s'.args p = some j

/-- The operation uses no freed memory, does nothing to the other boxes, and leaves one timer for every request that is
neither answered nor given up. -/
def Independent (s : PendingRequests) (op : BoxOp) : Prop :=
  ∃ s', step maxRetransmit s op = some s' ∧ Untouched (touched s op) s s' ∧
    ∀ k, (s'.boxes k).waiting → (s'.timersOf (some k)).length = 1

variable {s s' s'' : PendingRequests} {k : Fin 15} {o : Option (Fin 15)}

theorem boxes_setBox_self (box : PendingBox) : (s.setBox k box).boxes k = box := update_self ..

theorem boxes_setBox_of_ne {j : Fin 15} (other : j ≠ k) (box : PendingBox) : (s.setBox k box).boxes j = s.boxes j :=
  update_of_ne other ..

theorem freeArg_of_live {p : ℕ} (live : s.args p ≠ none) :
    freeArg (some p) s = some { s with args := update s.args p none } := if_neg live

namespace Untouched

theorem refl (s : PendingRequests) : Untouched o s s := ⟨fun _ _ => rfl, fun _ _ => rfl, fun _ _ _ h => h⟩

theorem trans (first : Untouched o s s') (second : Untouched o s' s'') : Untouched o s s'' where
  boxes j other := (second.boxes j other).trans (first.boxes j other)
  timers o' other := (second.timers o' other).trans (first.timers o' other)
  args p j other value := second.args p j other (first.args p j other value)

theorem setBox (box : PendingBox) : Untouched (some k) s (s.setBox k box) where
  boxes _ other := boxes_setBox_of_ne (fun h => other (congrArg some h)) box
  timers _ _ := rfl
  args _ _ _ value := value

theorem enqueue (arg : Option ℕ) : Untouched o s (s.enqueue o arg) where
  boxes _ _ := rfl
  timers _ other := by simp [timersOf, PendingRequests.enqueue, filter_append, Ne.symm other]
  args _ _ _ value := value

theorem freeArg {arg : Option ℕ} (own : ∀ p ∈ arg, ∀ j, s.args p = some j → some j = o)
    (freed : PendingRequests.freeArg arg s = some s') : Untouched o s s' := by
  cases arg with
  | none => exact some.inj freed ▸ refl s
  | some p =>
    rw [PendingRequests.freeArg, ite_none_left_eq_some] at freed
    refine some.inj freed.2 ▸ ⟨fun _ _ => rfl, fun _ _ => rfl, fun q j other value => ?_⟩
    have different : q ≠ p := fun same => other (own p rfl j (same ▸ value))
    exact (update_of_ne different _ _).trans value

end Untouched

/-- The timer of the box has not fired since the last update, or only to give up: the handler counts what it sends
again, and when it cannot send it drops the elements. -/
def Unfired (box : PendingBox) : Prop := box.retransmission = 0 ∧ (box.msgElems = none → box.timerArg = none)
  deriving Decidable

/-- The number in a box is the number of no other timer in the queue. -/
def Unshared (s : PendingRequests) (k : Fin 15) : Prop := (s.boxes k).used ∨ ∀ t ∈ s.queue, t.id ≠ 0
  deriving Decidable

structure Owns (box : PendingBox) (t : QueuedTimer) : Prop where
  used : box.used
  timer : box.timer = t.id
  arg : t.arg = box.timerArg
  given : box.timerArg ≠ none
  hdl : box.timerHdl
  sec : 0 < box.timerSec
  taken : box.msgType ≠ 0

/-- The invariant of the boxes and the queue.  While an operation on the box `o` is going on its request may be
without a timer, and its argument may be gone. -/
structure Inv (o : Option (Fin 15)) (s : PendingRequests) : Prop where
  nodup : (s.queue.map (·.id)).Nodup
  below : ∀ t ∈ s.queue, t.id < s.curId
  owns : ∀ t ∈ s.queue, ∀ k, t.owner = some k → Owns (s.boxes k) t
  mine : ∀ k, (s.boxes k).used → (s.boxes k).timer < s.curId ∧ ∀ t ∈ s.queue, t.id = (s.boxes k).timer →
    t.owner = some k
  unused : ∀ k, ¬ (s.boxes k).used → (s.boxes k).timer = 0
  allocated : ∀ k, ∀ p ∈ (s.boxes k).timerArg, p < s.nextArg ∧ ∀ j, s.args p = some j → j = k
  fresh : ∀ p j, s.args p = some j → p < s.nextArg
  waits : ∀ k, some k ≠ o → (s.boxes k).waiting → ∃ t ∈ s.queue, t.owner = some k
  live : ∀ k, some k ≠ o → Unfired (s.boxes k) → ∀ p ∈ (s.boxes k).timerArg, s.args p ≠ none
  empty : ∀ k, (s.boxes k).timerArg = none → (s.boxes k).fragmentsNum = 0

theorem eraseP_id_eq_filter {queue : List QueuedTimer} (nodup : (queue.map (·.id)).Nodup) (id : ℤ) :
    queue.eraseP (·.id = id) = queue.filter (·.id ≠ id) := by
  induction queue with
  | nil => rfl
  | cons t rest ih =>
    obtain ⟨notMem, nodup⟩ := nodup_cons.1 nodup
    by_cases found : t.id = id
    · have others : ∀ u ∈ rest, u.id ≠ id := fun u mem same => notMem (mem_map.2 ⟨u, mem, same.trans found.symm⟩)
      rw [eraseP_cons_of_pos (by simpa using found), filter_cons_of_neg (by simpa using found)]
      exact (filter_eq_self.2 (by simpa using others)).symm
    · rw [eraseP_cons_of_neg (by simpa using found), filter_cons_of_pos (by simpa using found), ih nodup]

namespace Inv

theorem start : Inv none start where
  nodup := nodup_nil
  below := nofun
  owns := nofun
  mine := nofun
  unused _ _ := rfl
  allocated := nofun
  fresh := nofun
  waits := nofun
  live := nofun
  empty _ _ := rfl

theorem weaken (inv : Inv none s) : Inv o s :=
  { inv with waits := fun k _ => inv.waits k nofun, live := fun k _ => inv.live k nofun }

theorem queue_timerRem (inv : Inv o s) (id : ℤ) : (timerRem id s).queue = s.queue.filter (·.id ≠ id) :=
  eraseP_id_eq_filter inv.nodup id

theorem mem_timerRem (inv : Inv o s) {id : ℤ} {t : QueuedTimer} :
    t ∈ (timerRem id s).queue ↔ t ∈ s.queue ∧ t.id ≠ id := by
  rw [inv.queue_timerRem, mem_filter, decide_eq_true_eq]

theorem owner_of_unshared (inv : Inv o s) (unshared : Unshared s k) : ∀ t ∈ s.queue, t.id = (s.boxes k).timer →
    t.owner = some k := by
  intro t mem same
  by_cases used : (s.boxes k).used = true
  · exact (inv.mine k used).2 t mem same
  · have none := unshared.resolve_left used t mem
    exact absurd (same.trans (inv.unused k used)) none

theorem eq_of_owner (inv : Inv o s) {t u : QueuedTimer} (memT : t ∈ s.queue) (memU : u ∈ s.queue)
    (ownerT : t.owner = some k)
    (ownerU : u.owner = some k) : t = u :=
  inj_on_of_nodup_map inv.nodup memT memU
    ((inv.owns t memT k ownerT).timer.symm.trans (inv.owns u memU k ownerU).timer)

theorem length_timersOf (inv : Inv none s) (waiting : (s.boxes k).waiting) : (s.timersOf (some k)).length = 1 := by
  obtain ⟨t, mem, owner⟩ := inv.waits k nofun waiting
  have nodup : (s.timersOf (some k)).Nodup := (List.Nodup.of_map _ inv.nodup).filter _
  have all : ∀ u, u ∈ s.timersOf (some k) ↔ u = t := fun u => by
    rw [timersOf, mem_filter, decide_eq_true_eq]
    exact ⟨fun h => inv.eq_of_owner h.1 mem h.2 owner, fun h => h ▸ ⟨mem, owner⟩⟩
  have perm : (s.timersOf (some k)).Perm [t] :=
    (perm_ext_iff_of_nodup nodup (nodup_singleton t)).2 fun u => (all u).trans mem_singleton.symm
  exact perm.length_eq

theorem timerRem (inv : Inv o s) {id : ℤ} (own : ∀ t ∈ s.queue, t.id = id → t.owner = o) :
    Inv o (timerRem id s) ∧ Untouched o s (PendingRequests.timerRem id s) := by
  have sub : ∀ t, t ∈ (PendingRequests.timerRem id s).queue → t ∈ s.queue := fun t mem => (inv.mem_timerRem.1 mem).1
  refine ⟨{ inv with nodup := ?_, below := ?_, owns := ?_, mine := ?_, waits := ?_, unused := inv.unused }, ?_⟩
  · rw [inv.queue_timerRem]
    exact (filter_sublist.map _).nodup inv.nodup
  · exact fun t mem => inv.below t (sub t mem)
  · exact fun t mem => inv.owns t (sub t mem)
  · exact fun k used => ⟨(inv.mine k used).1, fun t mem => (inv.mine k used).2 t (sub t mem)⟩
  · intro k other waiting
    obtain ⟨t, mem, owner⟩ := inv.waits k other waiting
    exact ⟨t, inv.mem_timerRem.2 ⟨mem, fun same => other (owner.symm.trans (own t mem same))⟩, owner⟩
  · refine ⟨fun _ _ => rfl, fun o' other => ?_, fun _ _ _ value => value⟩
    rw [timersOf, inv.queue_timerRem, List.filter_filter]
    refine filter_congr fun t mem => ?_
    by_cases owner : t.owner = o'
    · have kept : t.id ≠ id := fun same => other (owner.symm.trans (own t mem same))
      simp [owner, kept]
    · simp [owner]

theorem freeArg (inv : Inv o s) {arg : Option ℕ}
    (own : ∀ p ∈ arg, ∀ j, s.args p = some j → some j = o ∨ ¬ Unfired (s.boxes j)) (freed : freeArg arg s = some s') :
    Inv o s' := by
  cases arg with
  | none => exact some.inj freed ▸ inv
  | some p =>
    rw [PendingRequests.freeArg, ite_none_left_eq_some] at freed
    obtain rfl := some.inj freed.2
    have kept : ∀ q j, update s.args p none q = some j → s.args q = some j := by
      intro q j value
      by_cases same : q = p
      · simp [same] at value
      · rwa [update_of_ne same] at value
    refine { inv with
      fresh := fun q j value => inv.fresh q j (kept q j value)
      allocated := fun k q mem =>
        ⟨(inv.allocated k q mem).1, fun j value => (inv.allocated k q mem).2 j (kept q j value)⟩
      live := fun k other unfired q mem => ?_ }
    have different : q ≠ p := by
      rintro rfl
      obtain ⟨j, value⟩ := ne_none_iff_exists'.1 freed.1
      obtain rfl := (inv.allocated k q mem).2 j value
      exact (own q rfl j value).elim other fun fired => fired unfired
    exact (update_of_ne different ..).trans_ne (inv.live k other unfired q mem)

theorem allocate (inv : Inv o s) (k : Fin 15) :
    Inv o { s with args := update s.args s.nextArg (some k), nextArg := s.nextArg + 1 } ∧
      Untouched o s { s with args := update s.args s.nextArg (some k), nextArg := s.nextArg + 1 } := by
  have kept : ∀ p, p < s.nextArg → update s.args s.nextArg (some k) p = s.args p := fun p lt => update_of_ne lt.ne ..
  refine ⟨{ inv with allocated := fun j p mem => ?_, fresh := fun p j value => ?_, live :=
    fun j other unfired p mem => ?_ },
    ⟨fun _ _ => rfl, fun _ _ => rfl, fun p j _ value => (kept p (inv.fresh p j value)).trans value⟩⟩
  · obtain ⟨lt, own⟩ := inv.allocated j p mem
    exact ⟨lt.trans (Nat.lt_succ_self _), fun j' value => own j' ((kept p lt).symm.trans value)⟩
  · by_cases new : p = s.nextArg
    · exact new ▸ Nat.lt_succ_self _
    · exact (inv.fresh p j ((update_of_ne new ..).symm.trans value)).trans (Nat.lt_succ_self _)
  · exact (kept p (inv.allocated j p mem).1).trans_ne (inv.live j other unfired p mem)

theorem setBox (inv : Inv (some k) s) {box : PendingBox} (free : ∀ t ∈ s.queue, t.owner ≠ some k)
    (used : box.used = (s.boxes k).used) (timer : box.timer = (s.boxes k).timer)
    (arg : ∀ p ∈ box.timerArg, p ∈ (s.boxes k).timerArg) (waiting : box.waiting = false)
    (live : Unfired box → ∀ p ∈ box.timerArg, s.args p ≠ none) (empty : box.timerArg = none → box.fragmentsNum = 0) :
    Inv none (s.setBox k box) where
  nodup := inv.nodup
  below := inv.below
  owns t mem j owner := by
    have other : j ≠ k := fun same => free t mem (same ▸ owner)
    rw [boxes_setBox_of_ne other]
    exact inv.owns t mem j owner
  mine := (forall_update_iff s.boxes fun j b =>
    b.used → b.timer < s.curId ∧ ∀ t ∈ s.queue, t.id = b.timer → t.owner = some j).2
      ⟨by rw [used, timer]; exact inv.mine k, fun j _ => inv.mine j⟩
  unused := (forall_update_iff s.boxes fun _ b => ¬ b.used → b.timer = 0).2
    ⟨by rw [used, timer]; exact inv.unused k, fun j _ => inv.unused j⟩
  allocated := (forall_update_iff s.boxes fun j b =>
    ∀ p ∈ b.timerArg, p < s.nextArg ∧ ∀ j', s.args p = some j' → j' = j).2
      ⟨fun p mem => inv.allocated k p (arg p mem), fun j _ => inv.allocated j⟩
  fresh := inv.fresh
  waits j _ := (forall_update_iff s.boxes fun j b => b.waiting → ∃ t ∈ s.queue, t.owner = some j).2
    ⟨by rw [waiting]; nofun, fun j other => inv.waits j fun h => other (some.inj h)⟩ j
  live j _ := (forall_update_iff s.boxes fun _ b => Unfired b → ∀ p ∈ b.timerArg, s.args p ≠ none).2
    ⟨live, fun j other => inv.live j fun h => other (some.inj h)⟩ j
  empty := (forall_update_iff s.boxes fun _ b => b.timerArg = none → b.fragmentsNum = 0).2
    ⟨empty, fun j _ => inv.empty j⟩

section

variable (inv : Inv o s) (owner : Option (Fin 15)) (arg : Option ℕ)
include inv owner arg

theorem nodup_enqueue : ((s.enqueue owner arg).queue.map (·.id)).Nodup := by
  have new : s.curId ∉ s.queue.map (·.id) := fun mem => by
    obtain ⟨t, mem, same⟩ := mem_map.1 mem
    exact absurd (inv.below t mem) (by omega)
  exact (map_append ..).symm ▸ nodup_append_comm.1 (nodup_cons.2 ⟨new, inv.nodup⟩)

theorem below_enqueue : ∀ t ∈ (s.enqueue owner arg).queue, t.id < (s.enqueue owner arg).curId :=
  forall_mem_append.2
    ⟨fun t mem => (inv.below t mem).trans (Int.lt_succ _), forall_mem_singleton.2 (Int.lt_succ _)⟩

theorem mine_enqueue (used : (s.boxes k).used) : (s.boxes k).timer < (s.enqueue owner arg).curId ∧
      ∀ t ∈ (s.enqueue owner arg).queue, t.id = (s.boxes k).timer → t.owner = some k := by
  obtain ⟨past, mine⟩ := inv.mine k used
  refine ⟨past.trans (Int.lt_succ _), forall_mem_append.2 ⟨mine, forall_mem_singleton.2 fun same => ?_⟩⟩
  exact absurd same past.ne'

theorem waits_enqueue (other : some k ≠ o) (waiting : (s.boxes k).waiting) :
    ∃ t ∈ (s.enqueue owner arg).queue, t.owner = some k := by
  obtain ⟨t, mem, own⟩ := inv.waits k other waiting
  exact ⟨t, mem_append_left _ mem, own⟩

end

theorem enqueue (inv : Inv none s) : Inv none (s.enqueue none none) where
  nodup := inv.nodup_enqueue none none
  below := inv.below_enqueue none none
  owns := forall_mem_append.2 ⟨inv.owns, forall_mem_singleton.2 nofun⟩
  mine _ := inv.mine_enqueue none none
  unused := inv.unused
  allocated := inv.allocated
  fresh := inv.fresh
  waits _ := inv.waits_enqueue none none
  live := inv.live
  empty := inv.empty

theorem arm (inv : Inv (some k) s) (box : PendingBox) (free : ∀ t ∈ s.queue, t.owner ≠ some k)
    (owns : Owns box ⟨s.curId, some k, box.timerArg⟩)
    (arg : ∀ p ∈ box.timerArg, p < s.nextArg ∧ ∀ j, s.args p = some j → j = k)
    (live : Unfired box → ∀ p ∈ box.timerArg, s.args p ≠ none) :
    Inv none ((s.enqueue (some k) box.timerArg).setBox k box) where
  nodup := inv.nodup_enqueue _ _
  below := inv.below_enqueue _ _
  owns := by
    refine forall_mem_append.2 ⟨fun t mem j owner => ?_, forall_mem_singleton.2 fun j owner => ?_⟩
    · have other : j ≠ k := fun same => free t mem (same ▸ owner)
      rw [boxes_setBox_of_ne other]
      exact inv.owns t mem j owner
    · obtain rfl : k = j := some.inj owner
      rw [boxes_setBox_self]
      exact owns
  mine := by
    refine (forall_update_iff s.boxes fun j b => b.used → b.timer < s.curId + 1 ∧
      ∀ t ∈ (s.enqueue (some k) box.timerArg).queue, t.id = b.timer → t.owner = some j).2
        ⟨fun _ => ?_, fun j _ => inv.mine_enqueue _ _⟩
    rw [show box.timer = s.curId from owns.timer]
    refine ⟨Int.lt_succ _, forall_mem_append.2 ⟨fun t mem same => ?_, forall_mem_singleton.2 fun _ => rfl⟩⟩
    exact absurd same (inv.below t mem).ne
  unused := (forall_update_iff s.boxes fun _ b => ¬ b.used → b.timer = 0).2
    ⟨fun h => absurd owns.used h, fun j _ => inv.unused j⟩
  allocated := (forall_update_iff s.boxes fun j b =>
    ∀ p ∈ b.timerArg, p < s.nextArg ∧ ∀ j', s.args p = some j' → j' = j).2 ⟨arg, fun j _ => inv.allocated j⟩
  fresh := inv.fresh
  waits j _ := (forall_update_iff s.boxes fun j b =>
    b.waiting → ∃ t ∈ (s.enqueue (some k) box.timerArg).queue, t.owner = some j).2
      ⟨fun _ => ⟨_, mem_append_right _ (mem_singleton_self _), rfl⟩,
        fun _ other => inv.waits_enqueue _ _ fun h => other (some.inj h)⟩ j
  live j _ := (forall_update_iff s.boxes fun _ b => Unfired b → ∀ p ∈ b.timerArg, s.args p ≠ none).2
    ⟨live, fun j other => inv.live j fun h => other (some.inj h)⟩ j
  empty := (forall_update_iff s.boxes fun _ b => b.timerArg = none → b.fragmentsNum = 0).2
    ⟨fun none => absurd none owns.given, fun j _ => inv.empty j⟩

theorem free_of_timerRem (inv : Inv o s) :
    ∀ t ∈ (PendingRequests.timerRem (s.boxes k).timer s).queue, t.owner ≠ some k := by
  intro t mem owner
  obtain ⟨mem, other⟩ := inv.mem_timerRem.1 mem
  exact other (inv.owns t mem k owner).timer.symm

theorem resetPendingMsgBox (inv : Inv none s) (unfired : Unfired (s.boxes k)) (unshared : Unshared s k) :
    ∃ s', resetPendingMsgBox k s = some s' ∧ Untouched (some k) s s' ∧ Inv none s' := by
  obtain ⟨t, freed, boxes, queue⟩ : ∃ t, PendingRequests.freeArg (s.boxes k).timerArg s = some t ∧
      t.boxes = s.boxes ∧ t.queue = s.queue := by
    unfold PendingRequests.freeArg
    split
    · exact ⟨s, rfl, rfl, rfl⟩
    case _ p arg => exact ⟨_, if_neg (inv.live k nofun unfired p arg), rfl, rfl⟩
  have own : ∀ p ∈ (s.boxes k).timerArg, ∀ j, s.args p = some j → some j = some k :=
    fun p mem j value => congrArg some ((inv.allocated k p mem).2 j value)
  have invT : Inv (some k) t := inv.weaken.freeArg (fun p mem j value => .inl (own p mem j value)) freed
  have elems : ¬ ((s.boxes k).msgElems = none ∧ (s.boxes k).fragmentsNum ≠ 0) :=
    fun h => h.2 (inv.empty k (unfired.2 h.1))
  have unsharedT : Unshared t k := by rwa [Unshared, boxes, queue]
  obtain ⟨invR, untouched⟩ := invT.timerRem (invT.owner_of_unshared unsharedT)
  have same : (t.boxes k).timer = (s.boxes k).timer := by rw [boxes]
  rw [same] at invR untouched
  have free := same ▸ invT.free_of_timerRem
  refine ⟨_, by rw [PendingRequests.resetPendingMsgBox, freed, bind_some, if_neg elems],
    ((Untouched.freeArg own freed).trans untouched).trans (.setBox _),
    invR.setBox free ?_ ?_ (fun _ mem => absurd mem (by simp)) rfl
      (fun _ _ mem => absurd mem (by simp)) fun _ => rfl⟩
  · exact (congrArg (fun b => (b k).used) boxes).symm
  · exact same.symm

theorem findPendingRequestMsgsBox (inv : Inv none s) {msgType seqNum : ℕ}
    (unshared : ∀ k ∈ s.findPending msgType seqNum, Unshared s k) :
    Untouched (s.findPending msgType seqNum) s (findPendingRequestMsgsBox msgType seqNum s) ∧
      Inv none (PendingRequests.findPendingRequestMsgsBox msgType seqNum s) := by
  unfold PendingRequests.findPendingRequestMsgsBox
  cases found : s.findPending msgType seqNum with
  | none => exact ⟨.refl s, inv⟩
  | some k =>
    obtain ⟨invR, untouched⟩ := inv.weaken.timerRem (inv.owner_of_unshared (unshared k found))
    exact ⟨untouched.trans (.setBox _),
      invR.setBox inv.free_of_timerRem rfl rfl (fun _ mem => mem) rfl (inv.live k nofun) (inv.empty k)⟩

theorem updatePendingMsgBox (inv : Inv none s) {msgType seqNum : ℕ} {timerSec retransmission : ℤ}
    {msgElems : List (List UInt8)} {memory : Bool}
    (proper : (s.boxes k).msgType = 0 → msgType % 256 ≠ 0 ∧ 0 < timerSec ∧ memory) :
    Untouched (some k) s (updatePendingMsgBox k msgType seqNum timerSec retransmission msgElems memory s) ∧
      Inv none (PendingRequests.updatePendingMsgBox k msgType seqNum timerSec retransmission msgElems memory s) := by
  obtain ⟨invA, untouched⟩ := inv.weaken.allocate k
  unfold PendingRequests.updatePendingMsgBox
  by_cases taken : (s.boxes k).msgType = 0
  · obtain ⟨type, sec, enough⟩ := proper taken
    have free : ∀ t ∈ s.queue, t.owner ≠ some k := fun t mem owner => (inv.owns t mem k owner).taken taken
    simp only [taken, ne_eq, not_true_eq_false, if_false, timerAdd, sec, enough, and_self, if_true]
    refine ⟨(untouched.trans (.enqueue _)).trans (.setBox _),
      invA.arm _ free ⟨rfl, rfl, rfl, nofun, rfl, sec, type⟩ ?_ ?_⟩
    · intro p mem
      cases mem
      exact ⟨Nat.lt_succ_self _, fun j value =>
        (some.inj ((update_self s.nextArg (some k) s.args).symm.trans value)).symm⟩
    · intro _ p mem
      cases mem
      exact (update_self s.nextArg (some k) s.args).trans_ne (some_ne_none k)
  · simp only [taken, ne_eq, not_false_eq_true, if_true]
    exact ⟨untouched, inv.allocate k |>.1⟩

theorem retransmitTimerExpiredHandler (inv : Inv (some k) s) {maxRetransmit : ℤ} {p delivered : ℕ} {memory : Bool}
    (unfired : Unfired (s.boxes k)) (arg : (s.boxes k).timerArg = some p) (value : s.args p = some k)
    (free : ∀ t ∈ s.queue, t.owner ≠ some k) (used : (s.boxes k).used) (hdl : (s.boxes k).timerHdl)
    (sec : 0 < (s.boxes k).timerSec) (taken : (s.boxes k).msgType ≠ 0)
    (enough : (s.boxes k).retransmission ≠ maxRetransmit → (s.boxes k).fragmentsNum ≤ delivered → memory) :
    ∃ s', retransmitTimerExpiredHandler maxRetransmit (some p) delivered memory s = some s' ∧ Untouched (some k) s s' ∧
      Inv none s' := by
  have live : s.args p ≠ none := by
    rw [value]
    nofun
  have given : (s.boxes k).timerArg ≠ none := by simp [arg]
  have elems : (s.boxes k).msgElems ≠ none := fun none => given (unfired.2 none)
  have own : ∀ q ∈ some p, ∀ j, s.args q = some j → some j = some k := by
    intro q mem j other
    cases mem
    exact other.symm.trans value
  unfold PendingRequests.retransmitTimerExpiredHandler
  rw [bind_some, value, bind_some]
  by_cases last : (s.boxes k).retransmission = maxRetransmit
  · refine ⟨_, if_pos last, .setBox _, inv.setBox free rfl rfl (fun _ mem => mem) rfl (fun _ q mem => ?_) (inv.empty k)⟩
    obtain rfl : p = q := some.inj (arg.symm.trans mem)
    exact live
  rw [if_neg last, if_neg fun h => elems h.1]
  by_cases sent : (s.boxes k).fragmentsNum ≤ delivered
  · -- the request is sent again: the next timer has the argument that is freed here
    rw [if_pos sent, timerAdd, if_pos ⟨hdl, sec, enough last sent⟩]
    dsimp only
    have armed := inv.arm { s.boxes k with retransmission := (s.boxes k).retransmission + 1, timer := s.curId }
      free ⟨used, rfl, rfl, given, hdl, sec, taken⟩ (inv.allocated k) fun again => absurd again.1 (by simp [unfired.1])
    have freed (box : PendingBox) := freeArg_of_live (s := (s.enqueue (some k) (s.boxes k).timerArg).setBox k box) live
    refine ⟨_, freed _, ((Untouched.enqueue _).trans (.setBox _)).trans (.freeArg own (freed _)),
      armed.freeArg (fun q mem j other => .inr ?_) (freed _)⟩
    obtain rfl := some.inj (own q mem j other)
    rw [boxes_setBox_self]
    exact fun again => absurd again.1 (by simp [unfired.1])
  · rw [if_neg sent, freeArg_of_live (by exact live)]
    have freed := freeArg_of_live live
    have invF := inv.freeArg (fun q mem j other => .inl (own q mem j other)) freed
    exact ⟨_, rfl, (Untouched.freeArg own freed).trans (.setBox _), invF.setBox free rfl rfl (fun _ mem => mem) rfl
      (fun again => absurd (again.2 rfl) given) fun none => absurd none given⟩

end Inv

/-- A box that is reset has not been sent again since its last update.  It has no other timer's number, as a box that
finds an answer.  A free box gets a type and a timer.  A timer expires for the first time since the last update, and
its box gets the next timer if it needs one. -/
def Proper (maxRetransmit : ℤ) (s : PendingRequests) : BoxOp → Prop
  | .reserve => ∀ k ∈ s.findFree, Unfired (s.boxes k) ∧ Unshared s k
  | .update k msgType _ timerSec _ _ memory => (s.boxes k).msgType = 0 → msgType % 256 ≠ 0 ∧ 0 < timerSec ∧ memory
  | .answer msgType seqNum => ∀ k ∈ s.findPending msgType seqNum, Unshared s k
  | .reset k => Unfired (s.boxes k) ∧ Unshared s k
  | .expire id delivered memory => ∀ k ∈ (s.timerOf id).bind (·.owner),
    Unfired (s.boxes k) ∧ ((s.boxes k).retransmission ≠ maxRetransmit → (s.boxes k).fragmentsNum ≤ delivered → memory)
  | .otherAdd => True
  | .otherRem _ => True

instance {maxRetransmit : ℤ} (op : BoxOp) : Decidable (Proper maxRetransmit s op) := by
  cases op <;> dsimp only [Proper] <;> infer_instance

theorem Inv.timerOf (inv : Inv o s) {id : ℤ} {t : QueuedTimer} (found : s.timerOf id = some t) :
    t ∈ s.queue ∧ t.id = id ∧ ∀ u ∈ s.queue, u.id = id → u.owner = t.owner := by
  have mem : t ∈ s.queue := mem_of_find?_eq_some found
  have number : t.id = id := by simpa using find?_some found
  refine ⟨mem, number, fun u memU same => ?_⟩
  rw [inj_on_of_nodup_map inv.nodup memU mem (same.trans number.symm)]

theorem Inv.expire (inv : Inv none s) {maxRetransmit id : ℤ} {delivered : ℕ} {memory : Bool}
    (proper : Proper maxRetransmit s (.expire id delivered memory)) :
    ∃ s', step maxRetransmit s (.expire id delivered memory) = some s' ∧
      Untouched (touched s (.expire id delivered memory)) s s' ∧ Inv none s' := by
  simp only [Proper] at proper
  simp only [step, touched]
  cases found : s.timerOf id with
  | none => exact ⟨s, rfl, .refl s, inv⟩
  | some t =>
    rw [found, bind_some] at proper
    obtain ⟨mem, number, own⟩ := inv.timerOf found
    dsimp [bind_some]
    cases owner : t.owner with
    | none =>
      obtain ⟨invR, untouched⟩ := inv.timerRem (fun u memU same => (own u memU same).trans owner)
      exact ⟨_, rfl, untouched, invR⟩
    | some k =>
      obtain ⟨unfired, enough⟩ := proper k owner
      have owns := inv.owns t mem k owner
      obtain ⟨p, arg⟩ := ne_none_iff_exists'.1 owns.given
      obtain ⟨j, value⟩ := ne_none_iff_exists'.1 (inv.live k nofun unfired p arg)
      obtain rfl := (inv.allocated k p arg).2 j value
      obtain ⟨invR, untouched⟩ := inv.weaken.timerRem (fun u memU same => (own u memU same).trans owner)
      have free : ∀ u ∈ (PendingRequests.timerRem id s).queue, u.owner ≠ some j :=
        (owns.timer.trans number) ▸ inv.free_of_timerRem
      obtain ⟨s', handled, later, invS⟩ := invR.retransmitTimerExpiredHandler unfired arg value free owns.used
        owns.hdl owns.sec owns.taken enough
      exact ⟨s', by rw [owns.arg, arg]; exact handled, untouched.trans later, invS⟩

theorem Inv.step (inv : Inv none s) {maxRetransmit : ℤ} {op : BoxOp} (proper : Proper maxRetransmit s op) :
    ∃ s', step maxRetransmit s op = some s' ∧ Untouched (touched s op) s s' ∧ Inv none s' := by
  cases op with
  | reserve =>
    simp only [Proper] at proper
    simp only [PendingRequests.step, findFreePendingMsgBox, touched]
    cases found : s.findFree with
    | none => exact ⟨s, rfl, .refl s, inv⟩
    | some k => exact inv.resetPendingMsgBox (proper k found).1 (proper k found).2
  | update => exact ⟨_, rfl, inv.updatePendingMsgBox proper⟩
  | answer => exact ⟨_, rfl, inv.findPendingRequestMsgsBox proper⟩
  | reset => exact inv.resetPendingMsgBox proper.1 proper.2
  | expire => exact inv.expire proper
  | otherAdd => exact ⟨_, rfl, .enqueue none, inv.enqueue⟩
  | otherRem id =>
    simp only [PendingRequests.step, touched]
    cases found : s.timerOf id with
    | none => exact ⟨s, rfl, .refl s, inv⟩
    | some t =>
      dsimp only
      by_cases owner : t.owner = none
      · rw [if_pos owner]
        obtain ⟨invR, untouched⟩ := inv.timerRem fun u mem same => ((inv.timerOf found).2.2 u mem same).trans owner
        exact ⟨_, rfl, untouched, invR⟩
      · exact ⟨s, if_neg owner, .refl s, inv⟩

/-- In every run of proper operations each operation is independent of the other boxes. -/
theorem boxes_independent {maxRetransmit : ℤ} {ops : List BoxOp}
    (proper : Along (step maxRetransmit) (Proper maxRetransmit) start ops) :
    Along (step maxRetransmit) (Independent maxRetransmit) start ops := by
  refine proper.imp (P := Inv none) (fun s op s' inv proper next => ?_) (fun s op inv proper => ?_) Inv.start
  · obtain ⟨t, stepped, -, invT⟩ := inv.step proper
    exact some.inj (stepped.symm.trans next) ▸ invT
  · obtain ⟨t, stepped, untouched, invT⟩ := inv.step proper
    exact ⟨t, stepped, untouched, fun k => invT.length_timersOf⟩

def answeredRun : List BoxOp :=
  [.otherAdd, .otherRem 0, .reserve, .update 0 3 1 3 0 [[1, 2]] true, .reserve, .update 1 9 2 3 0 [[3]] true,
    .expire 1 1 true, .answer 9 2, .reset 1]

theorem boxes_independent_answeredRun : Along (step 5) (Independent 5) start answeredRun := by
  apply boxes_independent
  decide +kernel

/-- The handler frees the argument that it gives to the next timer, and a box that has never had a timer removes the
first timer of the program. -/
theorem boxes_not_independent : ¬ Along (step 5) (Independent 5) start
      [.reserve, .update 0 3 1 3 0 [[1, 2]] true, .expire 0 1 true, .expire 1 1 true] ∧
    ¬ Along (step 5) (Independent 5) start [.reserve, .update 0 3 1 3 0 [[1, 2]] true, .reserve] := by
  constructor
  · intro along
    obtain ⟨s', stepped, -⟩ := ((((along.2 _ rfl).2 _ rfl).2 _ rfl).1)
    exact absurd (isSome_iff_exists.2 ⟨s', stepped⟩) (by decide +kernel)
  · intro along
    obtain ⟨s', stepped, -, waits⟩ := (((along.2 _ rfl).2 _ rfl).1)
    cases stepped
    exact absurd (waits 0 rfl) (by decide +kernel)

end PendingRequests

end OpenWifi.OpenCapwap
