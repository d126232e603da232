import OpenWifi.Lib.Steps
import Mathlib.Algebra.Order.Group.Int
import Mathlib.Data.List.Nodup

/-!
# The timer library

`timerlib.c` keeps the timers in a queue.  The ticker thread programs the interval timer of the process for the first of
them, waits for `SIGALRM`, takes the timer that is then the first and runs its handler.
-/

namespace OpenWifi.OpenCapwap

open List Option

/-- A `struct timeval`, as `gettimeofday` gives it. -/
structure TimeVal where
  sec : ℕ
  usec : ℕ
  usec_lt : usec < 1000000

instance : DecidableEq TimeVal := fun a b =>
  decidable_of_iff (a.sec = b.sec ∧ a.usec = b.usec) ⟨by
    cases a
    cases b
    rintro ⟨rfl, rfl⟩
    rfl, fun same => same ▸ ⟨rfl, rfl⟩⟩

namespace TimeVal

variable {t u v : TimeVal}

def micros (t : TimeVal) : ℕ := t.sec * 1000000 + t.usec

/-- The time that is a number of seconds and microseconds later, as `timer_add` computes it. -/
def add (t : TimeVal) (sec usec : ℕ) : TimeVal where
  sec := t.sec + (sec + (t.usec + usec) / 1000000)
  usec := (t.usec + usec) % 1000000
  usec_lt := Nat.mod_lt _ (by decide)

/-- `TV_LESS_THAN`. -/
def LessThan (t u : TimeVal) : Prop := t.sec < u.sec ∨ t.sec = u.sec ∧ t.usec < u.usec
  deriving Decidable

/-- `TV_MINUS`: the seconds and the microseconds from the second time to the first. -/
def minus (t u : TimeVal) : ℕ × ℕ :=
  if u.usec ≤ t.usec then (t.sec - u.sec, t.usec - u.usec)
  else (t.sec - u.sec - 1, t.usec + (999999 - u.usec))

theorem lessThan_iff : LessThan t u ↔ t.micros < u.micros := by
  have := t.usec_lt
  have := u.usec_lt
  unfold LessThan micros
  omega

theorem micros_add (t : TimeVal) (sec usec : ℕ) : (t.add sec usec).micros = t.micros + (sec * 1000000 + usec) := by
  unfold micros add
  dsimp only
  omega

theorem micros_minus (later : LessThan u t) (borrow : u.usec ≤ t.usec) :
    u.micros + ((t.minus u).1 * 1000000 + (t.minus u).2) = t.micros := by
  rw [minus, if_pos borrow]
  unfold LessThan at later
  unfold micros
  dsimp only
  omega

end TimeVal

/-- `struct timer`. -/
structure Timer where
  timeout : TimeVal
  handler : ℕ
  handlerArg : Option ℕ
  id : ℤ
  inUse : Bool
  cancelled : Bool
  deriving DecidableEq

/-- Where the ticker is in the loop of `cronometer`. -/
inductive Ticker
  | idle
  /-- in `sigwait` -/
  | waiting
  /-- after `sigwait`, before the section that takes the timer -/
  | woken
  | running
  deriving DecidableEq

/-- A handler has been run: the timer, the time, and whether `timer_rem` for it was complete before it was taken. -/
structure HandlerRun where
  timer : Timer
  time : TimeVal
  removed : Bool
  deriving DecidableEq

/-- The queue of `timerlib.c`, the ticker, the clock, and the interval timer.  `ran` has the handlers that have been
run, and `removed` the removed timers. -/
structure TimerQueue where
  queue : List Timer
  curId : ℤ
  ticker : Ticker
  now : TimeVal
  alarm : Option ℕ
  pending : Bool
  ran : List HandlerRun
  removed : List ℤ
  deriving DecidableEq

namespace TimerQueue

variable (now : TimeVal)

def start : TimerQueue where
  queue := []
  curId := 0
  ticker := .idle
  now := now
  alarm := none
  pending := false
  ran := []
  removed := []

/-- The interval that `timer_start` programs. -/
def interval (absTo now : TimeVal) : ℕ × ℕ := if now.LessThan absTo then absTo.minus now else (0, 1000)

/-- `timer_start`; the interval 0 stops the interval timer. -/
def timerStart (absTo : TimeVal) (s : TimerQueue) : TimerQueue :=
  let relative := interval absTo s.now
  { s with
    alarm := if relative.1 = 0 ∧ relative.2 = 0 then none
      else some (s.now.micros + (relative.1 * 1000000 + relative.2)) }

/-- The loop of `timer_add`: a timer goes before the first that expires later. -/
def enqueue (app : Timer) : List Timer → List Timer
  | [] => [app]
  | tmp :: rest => if app.timeout.LessThan tmp.timeout then app :: tmp :: rest else tmp :: enqueue app rest

/-- The end of `timer_add`: the new timer comes into the queue, and one that is the first is started. -/
def insertTimer (app : Timer) (s : TimerQueue) : TimerQueue :=
  match s.queue with
  | [] => { s with queue := [app] }
  | first :: rest =>
    if app.timeout.LessThan first.timeout then
      timerStart app.timeout { s with queue := { app with inUse := true } :: { first with inUse := false } :: rest }
    else { s with queue := first :: enqueue app rest }

/-- `timer_add`; `memory` says whether there is memory for the timer. -/
def timerAdd (sec usec : ℤ) (handler handlerArg : Option ℕ) (memory : Bool) (s : TimerQueue) : ℤ × TimerQueue :=
  match handler with
  | none => (-1, s)
  | some handler =>
    if sec < 0 ∨ usec < 0 ∨ (sec = 0 ∧ usec = 0) then (-1, s)
    else if !memory then (-1, s)
    else
      (s.curId, insertTimer ⟨s.now.add sec.toNat usec.toNat, handler, handlerArg, s.curId, false, false⟩
        { s with curId := s.curId + 1 })

/-- The search of `timer_rem`: a timer in use is only marked; `freeArg` says whether its argument is to be freed. -/
def dequeue (id : ℤ) (freeArg : Bool) : List Timer → List Timer
  | [] => []
  | t :: rest =>
    if t.id = id then
      if t.inUse then { t with cancelled := true, handlerArg :=
        if freeArg then none else t.handlerArg } :: rest else rest
    else t :: dequeue id freeArg rest

/-- `timer_rem`. -/
def timerRem (id : ℤ) (freeArg : Bool) (s : TimerQueue) : TimerQueue :=
  { s with
    queue := dequeue id freeArg s.queue
    removed := if id < s.curId then id :: s.removed else s.removed }

/-- The section of `cronometer` before `sigwait`; with no timer the ticker goes on waiting for one. -/
def arm (s : TimerQueue) : TimerQueue :=
  match s.queue with
  | [] => s
  | first :: rest =>
    { timerStart first.timeout s with queue := { first with inUse := true } :: rest, ticker := .waiting }

/-- The section of `cronometer` after `sigwait`, and the call of the handler; `none` when there is no timer. -/
def take (s : TimerQueue) : Option TimerQueue :=
  match s.queue with
  | [] => none
  | first :: rest =>
    if first.cancelled then some { s with queue := rest, ticker := .idle }
    else some { s with queue := rest, ticker := .running, ran := ⟨first, s.now, s.removed.contains first.id⟩ :: s.ran }

inductive TimerEvent
  | pass (usec : ℕ)
  | signal
  | add (sec usec : ℤ) (handler handlerArg : Option ℕ) (memory : Bool)
  | rem (id : ℤ) (freeArg : Bool)
  | arm
  /-- `sigwait` returns -/
  | wake
  | take
  | done

/-- One step; `none` when the ticker dereferences an empty queue.  What cannot happen does nothing. -/
def step (s : TimerQueue) : TimerEvent → Option TimerQueue
  | .pass usec => some { s with now := s.now.add 0 usec }
  | .signal =>
    match s.alarm with
    | none => some s
    | some a => if a ≤ s.now.micros then some { s with alarm := none, pending := true } else some s
  | .add sec usec handler handlerArg memory => some (timerAdd sec usec handler handlerArg memory s).2
  | .rem id freeArg => some (timerRem id freeArg s)
  | .arm => if s.ticker = .idle then some (arm s) else some s
  | .wake => if s.ticker = .waiting ∧ s.pending then some { s with ticker := .woken, pending := false } else some s
  | .take => if s.ticker = .woken then take s else some s
  | .done => if s.ticker = .running then some { s with ticker := .idle } else some s

structure Safe (s : TimerQueue) : Prop where
  sorted : s.queue.Pairwise fun t u => t.timeout.micros ≤ u.timeout.micros
  once : (s.ran.map (·.timer.id)).Nodup
  due : ∀ r ∈ s.ran, r.timer.timeout.micros ≤ r.time.micros
  wanted : ∀ r ∈ s.ran, r.removed = false

def StaysSafe (s : TimerQueue) (e : TimerEvent) : Prop := ∃ s', step s e = some s' ∧ Safe s'

variable {s s' : TimerQueue} {e : TimerEvent}

def ids (s : TimerQueue) : List ℤ := s.ran.map (·.timer.id) ++ s.queue.map (·.id)

/-- The queue is ordered, all timers have different numbers, and a removed timer is marked.  While the ticker waits
there is a first timer, in use. -/
structure Inv (s : TimerQueue) : Prop where
  sorted : s.queue.Pairwise fun t u => t.timeout.micros ≤ u.timeout.micros
  nodup : s.ids.Nodup
  below : ∀ id ∈ s.ids, id < s.curId
  marked : ∀ t ∈ s.queue, t.id ∈ s.removed → t.cancelled
  past : ∀ id ∈ s.removed, id < s.curId
  wanted : ∀ r ∈ s.ran, r.removed = false
  watched : s.ticker = .waiting ∨ s.ticker = .woken → ∃ t ∈ s.queue.head?, t.inUse

theorem enqueue_perm (app : Timer) (queue : List Timer) : (enqueue app queue).Perm (app :: queue) := by
  induction queue with
  | nil => exact .refl _
  | cons tmp rest ih =>
    unfold enqueue
    split
    · exact .refl _
    · exact (ih.cons tmp).trans (.swap app tmp rest)

variable {queue : List Timer}

theorem enqueue_sorted {app : Timer} (sorted : queue.Pairwise fun t u => t.timeout.micros ≤ u.timeout.micros) :
    (enqueue app queue).Pairwise fun t u => t.timeout.micros ≤ u.timeout.micros := by
  induction queue with
  | nil => exact pairwise_singleton _ _
  | cons tmp rest ih =>
    obtain ⟨first, sorted⟩ := pairwise_cons.1 sorted
    unfold enqueue
    split
    case isTrue before =>
      have le := (TimeVal.lessThan_iff.1 before).le
      refine pairwise_cons.2 ⟨forall_mem_cons.2 ⟨le, fun u mem => le.trans (first u mem)⟩, ?_⟩
      exact pairwise_cons.2 ⟨first, sorted⟩
    case isFalse after =>
      have le := Nat.le_of_not_lt fun lt => after (TimeVal.lessThan_iff.2 lt)
      refine pairwise_cons.2 ⟨fun u mem => ?_, ih sorted⟩
      obtain rfl | mem := mem_cons.1 ((enqueue_perm app rest).mem_iff.1 mem)
      · exact le
      · exact first u mem

theorem dequeue_sublist (id : ℤ) (freeArg : Bool) (queue : List Timer) :
    ((dequeue id freeArg queue).map fun t => (t.timeout, t.id)).Sublist (queue.map fun t => (t.timeout, t.id)) := by
  induction queue with
  | nil => exact .refl _
  | cons t rest ih =>
    unfold dequeue
    split
    · split
      · exact .refl _
      · exact sublist_cons_self _ _
    · exact ih.cons_cons _

theorem dequeue_ids (id : ℤ) (freeArg : Bool) (queue : List Timer) :
    ((dequeue id freeArg queue).map (·.id)).Sublist (queue.map (·.id)) := by
  simpa only [List.map_map, Function.comp_def] using (dequeue_sublist id freeArg queue).map Prod.snd

theorem dequeue_sorted (id : ℤ) (freeArg : Bool)
    (sorted : queue.Pairwise fun t u => t.timeout.micros ≤ u.timeout.micros) :
    (dequeue id freeArg queue).Pairwise fun t u => t.timeout.micros ≤ u.timeout.micros := by
  have timeouts : ((dequeue id freeArg queue).map (·.timeout.micros)).Sublist (queue.map (·.timeout.micros)) := by
    simpa only [List.map_map, Function.comp_def] using (dequeue_sublist id freeArg queue).map fun p => p.1.micros
  exact pairwise_map.1 ((pairwise_map.2 sorted).sublist timeouts)

theorem mem_dequeue (nodup : (queue.map (·.id)).Nodup) {id : ℤ} {freeArg : Bool} {t : Timer}
    (mem : t ∈ dequeue id freeArg queue) : t ∈ queue ∧ t.id ≠ id ∨ t.cancelled := by
  induction queue with
  | nil => cases mem
  | cons u rest ih =>
    obtain ⟨notMem, nodup⟩ := nodup_cons.1 nodup
    have others (found : u.id = id) (mem : t ∈ rest) : t ∈ u :: rest ∧ t.id ≠ id :=
      ⟨mem_cons_of_mem _ mem, fun same => notMem (mem_map.2 ⟨t, mem, same.trans found.symm⟩)⟩
    unfold dequeue at mem
    split at mem
    case isTrue found =>
      split at mem
      · obtain rfl | mem := mem_cons.1 mem
        · exact .inr rfl
        · exact .inl (others found mem)
      · exact .inl (others found mem)
    case isFalse other =>
      obtain rfl | mem := mem_cons.1 mem
      · exact .inl ⟨mem_cons_self, other⟩
      · exact (ih nodup mem).imp (fun h => ⟨mem_cons_of_mem _ h.1, h.2⟩) fun h => h

theorem dequeue_head {t : Timer} (first : t ∈ queue.head?) (inUse : t.inUse) (id : ℤ) (freeArg : Bool) :
    ∃ u ∈ (dequeue id freeArg queue).head?, u.inUse ∧ u.timeout = t.timeout := by
  obtain ⟨rest, rfl⟩ := head?_eq_some_iff.1 first
  rw [dequeue, if_pos inUse]
  split
  · exact ⟨_, rfl, inUse, rfl⟩
  · exact ⟨t, rfl, inUse, rfl⟩

/-- What `timer_add` can do: nothing, or it adds a timer that expires in the future, behind the first or ahead of it. -/
inductive Added (timeout : TimeVal) (s : TimerQueue) : TimerQueue → Prop
  | refused : Added timeout s s
  | behind (app : Timer) (number : app.id = s.curId) (time : app.timeout = timeout)
      (after : ∀ first ∈ s.queue.head?, ¬ timeout.LessThan first.timeout) :
      Added timeout s { s with curId := s.curId + 1, queue := enqueue app s.queue }
  | ahead (app first : Timer) (rest : List Timer) (number : app.id = s.curId) (time : app.timeout = timeout)
      (future : s.now.micros < timeout.micros) (queue : s.queue = first :: rest)
      (before : timeout.LessThan first.timeout) :
      Added timeout s (timerStart timeout
        { s with curId := s.curId + 1, queue := { app with inUse := true } :: { first with inUse := false } :: rest })

theorem insertTimer_added (app : Timer) (number : app.id = s.curId) (future : s.now.micros < app.timeout.micros) :
    Added app.timeout s (insertTimer app { s with curId := s.curId + 1 }) := by
  unfold insertTimer
  dsimp only
  cases queue : s.queue with
  | nil =>
    have behind := Added.behind (s := s) app number rfl (by rw [queue]; nofun)
    rwa [queue] at behind
  | cons first rest =>
    by_cases before : app.timeout.LessThan first.timeout
    · dsimp only
      rw [if_pos before]
      exact .ahead app first rest number rfl future queue before
    · have after : ∀ t ∈ s.queue.head?, ¬ app.timeout.LessThan t.timeout := by
        rw [queue]
        rintro t ⟨⟩
        exact before
      have behind := Added.behind app number rfl after
      rw [queue, enqueue, if_neg before] at behind
      dsimp only
      rwa [if_neg before]

theorem timerAdd_added (sec usec : ℤ) (handler handlerArg : Option ℕ) (memory : Bool) (s : TimerQueue) :
    Added (s.now.add sec.toNat usec.toNat) s (timerAdd sec usec handler handlerArg memory s).2 := by
  unfold timerAdd
  cases handler with
  | none => exact .refused
  | some handler =>
    dsimp only
    split
    · exact .refused
    case isFalse positive =>
      split
      · exact .refused
      · refine insertTimer_added ⟨s.now.add sec.toNat usec.toNat, handler, handlerArg, s.curId, false, false⟩ rfl ?_
        rw [TimeVal.micros_add]
        omega

namespace Inv

theorem start : Inv (start now) where
  sorted := .nil
  nodup := nodup_nil
  below := nofun
  marked := nofun
  past := nofun
  wanted := nofun
  watched := by rintro (h | h) <;> cases h

theorem add (inv : Inv s) {app : Timer} {alarm : Option ℕ} (number : app.id = s.curId)
    (perm : (queue.map (·.id)).Perm (app.id :: s.queue.map (·.id)))
    (sorted : queue.Pairwise fun t u => t.timeout.micros ≤ u.timeout.micros)
    (marked : ∀ t ∈ queue, t.id = app.id ∨ ∃ u ∈ s.queue, t.id = u.id ∧ t.cancelled = u.cancelled)
    (watched : s.ticker = .waiting ∨ s.ticker = .woken → ∃ t ∈ queue.head?, t.inUse) :
    Inv { s with curId := s.curId + 1, queue := queue, alarm := alarm } := by
  have perm' : (s.ran.map (·.timer.id) ++ queue.map (·.id)).Perm (s.curId :: s.ids) := by
    refine (perm.append_left _).trans ?_
    rw [number]
    exact perm_middle
  have new : s.curId ∉ s.ids := fun mem => lt_irrefl _ (inv.below _ mem)
  refine { inv with sorted := sorted, nodup := ?_, below := ?_, marked := ?_, past := ?_, watched := watched }
  · exact perm'.nodup_iff.2 (nodup_cons.2 ⟨new, inv.nodup⟩)
  · intro id mem
    obtain rfl | mem := mem_cons.1 (perm'.mem_iff.1 mem)
    · exact Int.lt_succ _
    · exact (inv.below id mem).trans (Int.lt_succ _)
  · intro t mem removed
    obtain same | ⟨u, memU, same, flag⟩ := marked t mem
    · exact absurd (inv.past t.id removed) (by omega)
    · exact flag.trans (inv.marked u memU (same ▸ removed))
  · exact fun id mem => (inv.past id mem).trans (Int.lt_succ _)

theorem timerAdd (inv : Inv s) {timeout : TimeVal} (added : Added timeout s s') : Inv s' := by
  cases added with
  | refused => exact inv
  | behind app number time after =>
    refine inv.add number ((enqueue_perm app s.queue).map _) (enqueue_sorted inv.sorted) (fun t mem => ?_) fun waits =>
      ?_
    · obtain rfl | mem := mem_cons.1 ((enqueue_perm app s.queue).mem_iff.1 mem)
      · exact .inl rfl
      · exact .inr ⟨t, mem, rfl, rfl⟩
    · obtain ⟨first, head, inUse⟩ := inv.watched waits
      obtain ⟨rest, queue⟩ := head?_eq_some_iff.1 head
      refine ⟨first, ?_, inUse⟩
      rw [queue, enqueue, if_neg (time ▸ after first head)]
      rfl
  | ahead app first rest number time future queue before =>
    have sorted := pairwise_cons.1 (queue ▸ inv.sorted)
    have le : app.timeout.micros ≤ first.timeout.micros := time ▸ (TimeVal.lessThan_iff.1 before).le
    refine inv.add number (by rw [queue]; exact .refl _) ?_ (fun t mem => ?_) fun _ => ⟨_, rfl, rfl⟩
    · refine pairwise_cons.2 ⟨forall_mem_cons.2 ⟨le, fun u mem => le.trans (sorted.1 u mem)⟩, ?_⟩
      exact pairwise_cons.2 sorted
    · rw [queue]
      obtain rfl | mem := mem_cons.1 mem
      · exact .inl rfl
      · obtain rfl | mem := mem_cons.1 mem
        · exact .inr ⟨first, mem_cons_self, rfl, rfl⟩
        · exact .inr ⟨t, mem_cons_of_mem _ mem, rfl, rfl⟩

theorem timerRem (inv : Inv s) (id : ℤ) (freeArg : Bool) : Inv (timerRem id freeArg s) where
  sorted := dequeue_sorted id freeArg inv.sorted
  nodup := inv.nodup.sublist ((List.Sublist.refl _).append (dequeue_ids id freeArg s.queue))
  below i mem := inv.below i (((List.Sublist.refl _).append (dequeue_ids id freeArg s.queue)).subset mem)
  marked t mem removed := by
    obtain ⟨mem, other⟩ | cancelled := mem_dequeue (List.Nodup.of_append_right inv.nodup) mem
    · refine inv.marked t mem ?_
      unfold TimerQueue.timerRem at removed
      dsimp only at removed
      split at removed
      · exact (mem_cons.1 removed).resolve_left other
      · exact removed
    · exact cancelled
  past i mem := by
    unfold TimerQueue.timerRem at mem
    dsimp only at mem
    split at mem
    case isTrue known =>
      obtain rfl | mem := mem_cons.1 mem
      · exact known
      · exact inv.past i mem
    · exact inv.past i mem
  wanted := inv.wanted
  watched waits := by
    obtain ⟨t, head, inUse⟩ := inv.watched waits
    obtain ⟨u, head', inUse', -⟩ := dequeue_head head inUse id freeArg
    exact ⟨u, head', inUse'⟩

theorem arm (inv : Inv s) : Inv (arm s) := by
  unfold TimerQueue.arm
  cases queue : s.queue with
  | nil => exact inv
  | cons first rest =>
    refine ⟨?_, ?_, ?_, ?_, inv.past, inv.wanted, fun _ => ⟨_, rfl, rfl⟩⟩
    · exact pairwise_cons.2 (pairwise_cons.1 (queue ▸ inv.sorted))
    · have nodup := inv.nodup
      rwa [ids, queue] at nodup
    · have below := inv.below
      rwa [ids, queue] at below
    · have marked := inv.marked
      rw [queue] at marked
      exact forall_mem_cons.2 ⟨marked first mem_cons_self, fun t mem => marked t (mem_cons_of_mem _ mem)⟩

theorem take (inv : Inv s) (woken : s.ticker = .woken) : ∃ s', take s = some s' ∧ Inv s' := by
  obtain ⟨first, head, -⟩ := inv.watched (.inr woken)
  obtain ⟨rest, queue⟩ := head?_eq_some_iff.1 head
  have sorted := (pairwise_cons.1 (queue ▸ inv.sorted)).2
  have marked : ∀ t ∈ rest, t.id ∈ s.removed → t.cancelled := fun t mem => inv.marked t (queue ▸ mem_cons_of_mem _ mem)
  have perm : s.ids.Perm (first.id :: (s.ran.map (·.timer.id) ++ rest.map (·.id))) := by
    rw [ids, queue]
    exact perm_middle
  have nodup := perm.nodup_iff.1 inv.nodup
  have below : ∀ id ∈ first.id :: (s.ran.map (·.timer.id) ++ rest.map (·.id)), id < s.curId :=
    fun id mem => inv.below id (perm.mem_iff.2 mem)
  unfold TimerQueue.take
  rw [queue]
  dsimp only
  split
  · refine ⟨_, rfl, sorted, (nodup_cons.1 nodup).2, fun id mem => below id (mem_cons_of_mem _ mem), marked, inv.past,
      inv.wanted, ?_⟩
    rintro (h | h) <;> cases h
  case isFalse active =>
    refine ⟨_, rfl, sorted, nodup, below, marked, inv.past, forall_mem_cons.2 ⟨?_, inv.wanted⟩, ?_⟩
    · have kept : first.id ∉ s.removed := fun mem => active (inv.marked first (queue ▸ mem_cons_self) mem)
      simpa using kept
    · rintro (h | h) <;> cases h

theorem step (inv : Inv s) (e : TimerEvent) : ∃ s', step s e = some s' ∧ Inv s' := by
  cases e with
  | pass usec => exact ⟨_, rfl, { inv with }⟩
  | signal =>
    unfold TimerQueue.step
    dsimp only
    split
    · exact ⟨_, rfl, inv⟩
    · split
      · exact ⟨_, rfl, { inv with }⟩
      · exact ⟨_, rfl, inv⟩
  | add sec usec handler handlerArg memory => exact ⟨_, rfl, inv.timerAdd (timerAdd_added ..)⟩
  | rem id freeArg => exact ⟨_, rfl, inv.timerRem id freeArg⟩
  | arm =>
    unfold TimerQueue.step
    dsimp only
    split
    · exact ⟨_, rfl, inv.arm⟩
    · exact ⟨_, rfl, inv⟩
  | wake =>
    unfold TimerQueue.step
    dsimp only
    split
    case isTrue waits => exact ⟨_, rfl, { inv with watched := fun _ => inv.watched (.inl waits.1) }⟩
    · exact ⟨_, rfl, inv⟩
  | take =>
    unfold TimerQueue.step
    dsimp only
    split
    case isTrue woken => exact inv.take woken
    · exact ⟨_, rfl, inv⟩
  | done =>
    unfold TimerQueue.step
    dsimp only
    split
    · exact ⟨_, rfl, { inv with watched := by rintro (h | h) <;> cases h }⟩
    · exact ⟨_, rfl, inv⟩

end Inv

/-- When the ticker begins to wait a signal is pending only if the first timer has expired, and the interval that is
programmed for it does not borrow a second. -/
def Proper (s : TimerQueue) : TimerEvent → Prop
  | .arm => s.ticker = .idle → ∀ t ∈ s.queue.head?, (s.pending → t.timeout.micros ≤ s.now.micros) ∧
    (s.now.LessThan t.timeout → s.now.usec ≤ t.timeout.usec)
  | .add sec usec _ _ _ => s.ticker = .waiting →
    (∃ t ∈ s.queue.head?, (s.now.add sec.toNat usec.toNat).LessThan t.timeout) →
    s.now.usec ≤ (s.now.add sec.toNat usec.toNat).usec
  | _ => True

instance (e : TimerEvent) : Decidable (Proper s e) := by cases e <;> dsimp only [Proper] <;> infer_instance

/-- No handler has run before its time; once a signal is pending for the ticker, or has woken it, the first timer has
expired. -/
structure Timely (s : TimerQueue) : Prop where
  due : ∀ r ∈ s.ran, r.timer.timeout.micros ≤ r.time.micros
  woken : s.ticker = .woken → ∀ t ∈ s.queue.head?, t.timeout.micros ≤ s.now.micros
  signalled : s.ticker = .waiting → s.pending → ∀ t ∈ s.queue.head?, t.timeout.micros ≤ s.now.micros
  programmed : s.ticker = .waiting → ∀ a ∈ s.alarm, ∀ t ∈ s.queue.head?, t.timeout.micros ≤ a

theorem le_alarm_timerStart {absTo : TimeVal} (borrow : s.now.LessThan absTo → s.now.usec ≤ absTo.usec) :
    ∀ a ∈ (timerStart absTo s).alarm, absTo.micros ≤ a := by
  intro a mem
  have ends := (ite_none_left_eq_some.1 mem).2
  cases ends
  unfold interval
  split
  case isTrue future => exact (TimeVal.micros_minus future (borrow future)).ge
  case isFalse past =>
    have := mt TimeVal.lessThan_iff.2 past
    omega

namespace Timely

theorem start : Timely (start now) := ⟨nofun, nofun, nofun, nofun⟩

section

variable (timely : Timely s)
include timely

theorem pass (usec : ℕ) : Timely { s with now := s.now.add 0 usec } := by
  have later : s.now.micros ≤ (s.now.add 0 usec).micros := by
    rw [TimeVal.micros_add]
    omega
  exact ⟨timely.due, fun woken t head => (timely.woken woken t head).trans later,
    fun waiting pending t head => (timely.signalled waiting pending t head).trans later, timely.programmed⟩

theorem of_head (ids : ℤ) (removed : List ℤ)
    (head : s.ticker = .waiting ∨ s.ticker = .woken → ∀ t ∈ queue.head?, ∃ u ∈ s.queue.head?, t.timeout = u.timeout) :
    Timely { s with curId := ids, queue := queue, removed := removed } := by
  refine ⟨timely.due, fun woken t mem => ?_, fun waiting pending t mem => ?_, fun waiting a ends t mem => ?_⟩
  · obtain ⟨u, memU, same⟩ := head (.inr woken) t mem
    exact same ▸ timely.woken woken u memU
  · obtain ⟨u, memU, same⟩ := head (.inl waiting) t mem
    exact same ▸ timely.signalled waiting pending u memU
  · obtain ⟨u, memU, same⟩ := head (.inl waiting) t mem
    exact same ▸ timely.programmed waiting a ends u memU

theorem timerAdd (inv : Inv s) {timeout : TimeVal} (added : Added timeout s s')
    (borrow : s.ticker = .waiting → (∃ t ∈ s.queue.head?, timeout.LessThan t.timeout) → s.now.usec ≤ timeout.usec) :
    Timely s' := by
  cases added with
  | refused => exact timely
  | behind app number time after =>
    refine timely.of_head _ s.removed fun waits t mem => ?_
    obtain ⟨first, head, -⟩ := inv.watched waits
    obtain ⟨rest, queue⟩ := head?_eq_some_iff.1 head
    rw [queue, enqueue, if_neg (time ▸ after first head)] at mem
    exact ⟨first, head, by rw [some.inj mem]⟩
  | ahead app first rest number time future queue before =>
    -- the first timer is still to expire, so no signal is pending
    have head : first ∈ s.queue.head? := by rw [queue]; rfl
    have later := TimeVal.lessThan_iff.1 before
    refine ⟨timely.due, fun woken => ?_, fun waiting pending => ?_, fun waiting a ends t mem => ?_⟩
    · exact absurd (timely.woken woken first head) (by omega)
    · exact absurd (timely.signalled waiting pending first head) (by omega)
    · cases mem
      rw [time]
      exact le_alarm_timerStart (fun _ => borrow waiting ⟨first, head, before⟩) a ends

theorem timerRem (inv : Inv s) (id : ℤ) (freeArg : Bool) : Timely (timerRem id freeArg s) := by
  refine timely.of_head s.curId _ fun waits t mem => ?_
  obtain ⟨first, head, inUse⟩ := inv.watched waits
  obtain ⟨u, head', -, same⟩ := dequeue_head head inUse id freeArg
  exact ⟨first, head, some.inj (mem.symm.trans head') ▸ same⟩

theorem arm (idle : s.ticker = .idle) (proper : Proper s .arm) : Timely (arm s) := by
  unfold TimerQueue.arm
  cases queue : s.queue with
  | nil => exact timely
  | cons first rest =>
    obtain ⟨left, borrow⟩ := proper idle first (by rw [queue]; rfl)
    refine ⟨timely.due, nofun, fun _ pending t mem => ?_, fun _ a ends t mem => ?_⟩
    · cases mem
      exact left pending
    · cases mem
      exact le_alarm_timerStart borrow a ends

theorem take (woken : s.ticker = .woken) (taken : take s = some s') : Timely s' := by
  unfold TimerQueue.take at taken
  split at taken
  · cases taken
  case h_2 first rest queue =>
    have due := timely.woken woken first (by rw [queue]; rfl)
    split at taken
    · cases taken
      exact ⟨timely.due, nofun, nofun, nofun⟩
    · cases taken
      exact ⟨forall_mem_cons.2 ⟨due, timely.due⟩, nofun, nofun, nofun⟩

theorem step (inv : Inv s) (proper : Proper s e) (next : step s e = some s') : Timely s' := by
  unfold TimerQueue.step at next
  cases e with
  | pass usec =>
    cases next
    exact timely.pass usec
  | signal =>
    dsimp only at next
    split at next
    · cases next
      exact timely
    case h_2 a alarm =>
      split at next
      case isTrue ended =>
        cases next
        exact ⟨timely.due, timely.woken,
          fun waiting _ t mem => (timely.programmed waiting a alarm t mem).trans ended, fun _ => nofun⟩
      · cases next
        exact timely
  | add sec usec handler handlerArg memory =>
    cases next
    exact timely.timerAdd inv (timerAdd_added ..) proper
  | rem id freeArg =>
    cases next
    exact timely.timerRem inv id freeArg
  | arm =>
    dsimp only at next
    split at next
    case isTrue idle =>
      cases next
      exact timely.arm idle proper
    · cases next
      exact timely
  | wake =>
    dsimp only at next
    split at next
    case isTrue waits =>
      cases next
      exact ⟨timely.due, fun _ => timely.signalled waits.1 waits.2, nofun, nofun⟩
    · cases next
      exact timely
  | take =>
    dsimp only at next
    split at next
    case isTrue woken => exact timely.take woken next
    · cases next
      exact timely
  | done =>
    dsimp only at next
    split at next
    · cases next
      exact ⟨timely.due, nofun, nofun, nofun⟩
    · cases next
      exact timely

end

end Timely

/-- In every run of proper steps the ticker never finds an empty queue, and the queue and the handlers are safe. -/
theorem timers_safe {now : TimeVal} {events : List TimerEvent} (proper : Along step Proper (start now) events) :
    Along step StaysSafe (start now) events := by
  refine proper.imp (P := fun s => Inv s ∧ Timely s) (fun s e s' both proper next => ?_) (fun s e both proper => ?_)
    ⟨.start now, .start now⟩
  · obtain ⟨t, stepped, inv⟩ := both.1.step e
    obtain rfl := some.inj (stepped.symm.trans next)
    exact ⟨inv, both.2.step both.1 proper next⟩
  · obtain ⟨t, stepped, inv⟩ := both.1.step e
    have timely := both.2.step both.1 proper stepped
    exact ⟨t, stepped, inv.sorted, List.Nodup.of_append_left inv.nodup, timely.due, inv.wanted⟩

def shorterRun : List TimerEvent :=
  [.add 30 0 (some 1) none true, .arm, .add 5 0 (some 2) none true, .add 7 0 (some 3) none true,
    .rem 2 false, .pass 5000000,
    .signal, .wake, .take, .done, .arm, .pass 25000000, .signal, .wake, .take, .done]

theorem timers_safe_shorterRun : Along step StaysSafe (start ⟨10, 0, by decide⟩) shorterRun :=
  timers_safe (by decide +kernel)

/-- Whatever the clock and the signals do, the ticker never finds an empty queue. -/
theorem run_inv (now : TimeVal) (events : List TimerEvent) : ∃ s, runFrom step (start now) events = some s ∧ Inv s := by
  have inv := Inv.start now
  generalize start now = s at *
  induction events generalizing s with
  | nil => exact ⟨s, rfl, inv⟩
  | cons e events ih =>
    obtain ⟨s', next, inv⟩ := inv.step e
    rw [runFrom, next]
    exact ih s' inv

/-- A signal that is left over wakes the ticker for the timer of 100.5 s. -/
def staleRun : List TimerEvent :=
  [.add 1 0 (some 1) none true, .add 100 500000 (some 2) none true, .arm, .pass 1000000, .signal, .wake, .take,
    .add 2 0 (some 3) none true, .pass 2000000, .signal, .done,
    .arm, .wake, .take, .pass 2000, .signal, .done,
    .arm, .wake, .take]

def borrowRun : List TimerEvent :=
  [.add 0 600000 (some 1) none true, .arm, .pass 599999, .signal, .wake, .take]

theorem not_along_of_early {now : TimeVal} {events : List TimerEvent}
    (early : ((runFrom step (start now) events).elim [] (·.ran)).any fun r => r.time.micros < r.timer.timeout.micros) :
    ¬ Along step StaysSafe (start now) events := by
  intro along
  cases run : runFrom step (start now) events with
  | none => simp [run] at early
  | some s =>
    have safe : Safe s := by
      have initial : Safe (start now) := ⟨.nil, nodup_nil, nofun, nofun⟩
      refine along.invariant (fun t e t' _ stays next => ?_) initial run
      obtain ⟨u, stepped, safe⟩ := stays
      exact some.inj (stepped.symm.trans next) ▸ safe
    rw [run] at early
    obtain ⟨r, mem, before⟩ := any_eq_true.1 early
    exact absurd (safe.due r mem) (Nat.not_le.2 (of_decide_eq_true before))

theorem handlers_early : ¬ Along step StaysSafe (start ⟨10, 0, by decide⟩) staleRun ∧
    ¬ Along step StaysSafe (start ⟨10, 500000, by decide⟩) borrowRun :=
  ⟨not_along_of_early (by decide +kernel), not_along_of_early (by decide +kernel)⟩

end TimerQueue

end OpenWifi.OpenCapwap
