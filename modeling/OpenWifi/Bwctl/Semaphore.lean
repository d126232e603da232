import Mathlib.Data.Fintype.Basic
import OpenWifi.Lib.Steps

/-!
# The bandwidth semaphore

Creating the semaphore and giving it its value are two calls, and so are the test and the operation of `lock_sem` and of
`unlock_sem`; a step is one such call.  A signal makes a process unlock and exit.
-/

namespace OpenWifi.Bwctl

open Option

/-- `lock` with the time left to wait, `unlock`, or the unlock of the signal handler. -/
inductive Task
  | lock (maxWaitMilliseconds : ℕ)
  | unlock
  | quit
  deriving DecidableEq

inductive Pc
  | idle
  /-- `semget` with `IPC_CREAT | IPC_EXCL`. -/
  | create (task : Task)
  /-- `semctl` with `SETVAL`, by the process that has created the semaphore. -/
  | setVal (task : Task)
  /-- `semget` of a semaphore that exists. -/
  | openSem (task : Task)
  /-- `semctl` with `GETVAL`. -/
  | getVal (task : Task)
  | semop (task : Task)
  | holding
  | leaving
  | exited
  deriving DecidableEq

def Pc.isSetVal : Pc → Bool
  | .setVal _ => true
  | _ => false

/-- Whether a process knows the semaphore and has called `unlock_bandwidth_semaphore_on_exit`, where it is, and whether
it is between a successful lock and its own unlock. -/
structure Process where
  sid : Bool
  handlers : Bool
  pc : Pc
  inside : Bool
  deriving DecidableEq

namespace Process

variable (proc : Process)

/-- `lock` and `unlock` get the identifier first if they do not have it. -/
def start (task : Task) : Process := { proc with pc := if proc.sid then .getVal task else .create task }

/-- The loop of `lock` after an attempt that failed. -/
def retry (maxWaitMilliseconds : ℕ) : Process :=
  let left := if 25 < maxWaitMilliseconds then maxWaitMilliseconds - 25 else 0
  { proc with pc := if 0 < left then .getVal (.lock left) else .idle }

def release (task : Task) : Process :=
  { proc with pc := if task = .quit then .leaving else .idle, inside := false }

def call (sem : Option ℕ) : Option (Option ℕ × Process) :=
  match proc.pc with
  | .idle => none
  | .create task =>
    match sem with
    | none => some (some 0, { proc with sid := true, pc := .setVal task })
    | some _ => some (sem, { proc with sid := false, pc := .openSem task })
  | .setVal task => some (some 1, { proc with pc := .getVal task })
  | .openSem task => sem.map fun v => (some v, { proc with sid := true, pc := .getVal task })
  | .getVal (.lock wait) =>
    sem.map fun v => (some v, if 0 < v then { proc with pc := .semop (.lock wait) } else proc.retry wait)
  | .getVal task => sem.map fun v => (some v, if v = 0 then { proc with pc := .semop task } else proc.release task)
  | .semop (.lock wait) =>
    sem.map fun v =>
      if 0 < v then (some (v - 1), { proc with pc := .holding, inside := true }) else (some v, proc.retry wait)
  | .semop task => sem.map fun v => (some (v + 1), proc.release task)
  | .holding => some (sem, proc.start .unlock)
  | .leaving => some (sem, { proc with pc := .exited })
  | .exited => none

end Process

variable {P : Type} [DecidableEq P]

structure System (P : Type) where
  sem : Option ℕ
  procs : P → Process

def System.initial (P : Type) : System P := ⟨none, fun _ => ⟨false, false, .idle, false⟩⟩

inductive Event
  /-- `unlock_bandwidth_semaphore_on_exit`. -/
  | install
  /-- `get_bandwidth_data` or `set_bandwidth_data` is called. -/
  | begin (maxWaitMilliseconds : ℕ)
  | call
  /-- `SIGTERM` or `SIGINT` arrives. -/
  | signal
  deriving DecidableEq

namespace System

variable (s : System P)

def set (p : P) (sem : Option ℕ) (proc : Process) : System P := ⟨sem, Function.update s.procs p proc⟩

def step (e : P × Event) : Option (System P) :=
  let proc := s.procs e.1
  match e.2 with
  | .install => if proc.pc = .idle then some (s.set e.1 s.sem { proc with handlers := true }) else none
  | .begin wait => if proc.pc = .idle then some (s.set e.1 s.sem (proc.start (.lock wait))) else none
  | .call => (proc.call s.sem).map fun r => s.set e.1 r.1 r.2
  | .signal => if proc.handlers ∧ proc.pc ≠ .exited then some (s.set e.1 s.sem (proc.start .quit)) else none

def Safe : Prop := (∀ p q, (s.procs p).inside → (s.procs q).inside → p = q) ∧ ∀ v, s.sem = some v → v ≤ 1

/-- The handler of a process that is outside would release a lock that another process takes before the test. -/
def Quiet (e : P × Event) : Prop := e.2 = .signal → (s.procs e.1).inside
  deriving Decidable

end System

def Process.Regular (proc : Process) : Prop :=
  match proc.pc with
  | .create (.lock _) | .openSem (.lock _) => proc.inside = false
  | .setVal (.lock _) | .getVal (.lock _) | .semop (.lock _) => proc.inside = false ∧ proc.sid = true
  | .create _ | .setVal _ | .openSem _ => False
  | .getVal _ | .semop _ | .holding => proc.inside = true ∧ proc.sid = true
  | .idle | .leaving | .exited => proc.inside = false

inductive Move (sem : Option ℕ) (proc : Process) : Option ℕ → Process → Prop
  | look {next : Process} (inside : next.inside = proc.inside) (old : ¬ next.pc.isSetVal) : Move sem proc sem next
  | create {next : Process} (absent : sem = none) (inside : next.inside = false) : Move sem proc (some 0) next
  | setVal {next : Process} (pc : proc.pc.isSetVal) (inside : next.inside = false) (old : ¬ next.pc.isSetVal) :
      Move sem proc (some 1) next
  | enter {next : Process} {v : ℕ} (value : sem = some (v + 1)) (old : ¬ next.pc.isSetVal) : Move sem proc (some v) next
  | leave {next : Process} {v v' : ℕ} (value : sem = some v) (inside : proc.inside = true)
      (outside : next.inside = false) (after : v' = v + 1 ∨ v ≠ 0) (old : ¬ next.pc.isSetVal) :
      Move sem proc (some v') next

namespace Process

variable {proc next : Process}

/-- Inside, or the creator of the semaphore that has not given it its value yet. -/
def Busy (proc : Process) : Prop := proc.inside ∨ proc.pc.isSetVal

theorem regular_retry (outside : proc.inside = false) (known : proc.sid = true) (wait : ℕ) :
    (proc.retry wait).Regular ∧ (proc.retry wait).inside = proc.inside ∧ ¬ (proc.retry wait).pc.isSetVal := by
  unfold retry
  dsimp only
  generalize (if 25 < wait then wait - 25 else 0) = left
  by_cases more : 0 < left <;> simp [more, Regular, Pc.isSetVal, outside, known]

theorem regular_release (task : Task) :
    (proc.release task).Regular ∧ (proc.release task).inside = false ∧ ¬ (proc.release task).pc.isSetVal := by
  by_cases last : task = .quit <;> simp [release, last, Regular, Pc.isSetVal]

theorem call_move {sem sem' : Option ℕ} (regular : proc.Regular) (h : proc.call sem = some (sem', next)) :
    next.Regular ∧ Move sem proc sem' next := by
  obtain ⟨sid, handlers, pc, inside⟩ := proc
  cases pc with
  | idle | exited => simp [call] at h
  | leaving =>
    cases h
    exact ⟨regular, .look rfl nofun⟩
  | holding =>
    cases h
    obtain ⟨hi, hs⟩ := regular
    dsimp only at hi hs
    subst hi hs
    exact ⟨⟨rfl, rfl⟩, .look rfl (by simp [start, Pc.isSetVal])⟩
  | create task =>
    cases task with
    | lock wait =>
      cases sem with
      | none =>
        cases h
        exact ⟨⟨regular, rfl⟩, .create rfl regular⟩
      | some v =>
        cases h
        exact ⟨regular, .look rfl nofun⟩
    | unlock | quit => exact regular.elim
  | setVal task =>
    cases task with
    | lock wait =>
      cases h
      exact ⟨regular, .setVal rfl regular.1 nofun⟩
    | unlock | quit => exact regular.elim
  | openSem task =>
    cases task with
    | lock wait =>
      obtain ⟨v, rfl, same⟩ := map_eq_some_iff.1 h
      cases same
      exact ⟨⟨regular, rfl⟩, .look rfl nofun⟩
    | unlock | quit => exact regular.elim
  | getVal task =>
    cases task with
    | lock wait =>
      obtain ⟨v, rfl, same⟩ := map_eq_some_iff.1 h
      cases same
      obtain ⟨again, kept, old⟩ := regular_retry regular.1 regular.2 wait
      split
      case isTrue => exact ⟨regular, .look rfl nofun⟩
      case isFalse => exact ⟨again, .look kept old⟩
    | unlock | quit =>
      obtain ⟨v, rfl, same⟩ := map_eq_some_iff.1 h
      cases same
      split
      case isTrue => exact ⟨regular, .look rfl nofun⟩
      case isFalse changed =>
        obtain ⟨free, outside, old⟩ := regular_release _
        exact ⟨free, .leave rfl regular.1 outside (.inr changed) old⟩
  | semop task =>
    cases task with
    | lock wait =>
      obtain ⟨v, rfl, same⟩ := map_eq_some_iff.1 h
      obtain ⟨again, kept, old⟩ := regular_retry regular.1 regular.2 wait
      split at same
      case isTrue positive =>
        cases same
        obtain ⟨v, rfl⟩ : ∃ u, v = u + 1 := ⟨v - 1, by omega⟩
        exact ⟨⟨rfl, regular.2⟩, .enter rfl nofun⟩
      case isFalse =>
        cases same
        exact ⟨again, .look kept old⟩
    | unlock | quit =>
      obtain ⟨v, rfl, same⟩ := map_eq_some_iff.1 h
      cases same
      obtain ⟨free, outside, old⟩ := regular_release _
      exact ⟨free, .leave rfl regular.1 outside (.inl rfl) old⟩

theorem regular_lock (outside : proc.inside = false) (wait : ℕ) :
    (proc.start (.lock wait)).Regular ∧ ¬ (proc.start (.lock wait)).pc.isSetVal := by
  by_cases known : proc.sid = true <;> simp [start, known, Regular, Pc.isSetVal, outside]

theorem regular_quit (regular : proc.Regular) (inside : proc.inside = true) :
    (proc.start .quit).Regular ∧ ¬ (proc.start .quit).pc.isSetVal := by
  have known : proc.sid = true := by
    obtain ⟨sid, handlers, pc, _⟩ := proc
    dsimp only at inside
    subst inside
    rcases pc with _ | task | task | task | task | task | _ | _ | _
    case holding => exact regular.2
    all_goals first | (cases task <;> simp [Regular] at regular ⊢ <;> assumption) | simp [Regular] at regular
  simp [start, known, Regular, Pc.isSetVal, inside]

end Process

namespace System

variable {s s' : System P} {e : P × Event}

theorem step_move (regular : (s.procs e.1).Regular) (signal : e.2 = .signal → (s.procs e.1).inside)
    (h : s.step e = some s') :
    ∃ sem next, s' = s.set e.1 sem next ∧ next.Regular ∧ Move s.sem (s.procs e.1) sem next := by
  obtain ⟨p, e⟩ := e
  dsimp only at regular signal ⊢
  have idle : (s.procs p).pc = .idle → (s.procs p).inside = false := by
    intro pc
    simpa [Process.Regular, pc] using regular
  cases e with
  | install =>
    simp only [step, ite_none_right_eq_some, some.injEq] at h
    obtain ⟨pc, rfl⟩ := h
    exact ⟨_, _, rfl, by simpa [Process.Regular, pc] using idle pc, .look rfl (by simp [pc, Pc.isSetVal])⟩
  | begin wait =>
    simp only [step, ite_none_right_eq_some, some.injEq] at h
    obtain ⟨pc, rfl⟩ := h
    obtain ⟨next, old⟩ := Process.regular_lock (idle pc) wait
    exact ⟨_, _, rfl, next, .look rfl old⟩
  | call =>
    obtain ⟨⟨sem, next⟩, called, rfl⟩ := map_eq_some_iff.1 h
    obtain ⟨next, move⟩ := Process.call_move regular called
    exact ⟨_, _, rfl, next, move⟩
  | signal =>
    simp only [step, ite_none_right_eq_some, some.injEq] at h
    obtain ⟨-, rfl⟩ := h
    obtain ⟨next, old⟩ := Process.regular_quit regular (signal rfl)
    exact ⟨_, _, rfl, next, .look rfl old⟩

/-- The semaphore is zero while a process is busy, and one is at most. -/
structure Exclusive (s : System P) : Prop where
  regular : ∀ p, (s.procs p).Regular
  busy : ∀ p, (s.procs p).Busy → s.sem = some 0 ∧ ∀ q, (s.procs q).Busy → q = p
  value : ∀ v, s.sem = some v → v ≤ 1

omit [DecidableEq P] in
theorem exclusive_initial : (initial P).Exclusive where
  regular _ := rfl
  busy _ h := by simp [initial, Process.Busy, Pc.isSetVal] at h
  value _ h := by simp [initial] at h

@[simp] theorem set_procs_self (p : P) (sem : Option ℕ) (next : Process) : (s.set p sem next).procs p = next :=
  Function.update_self ..

theorem set_procs_of_ne {p q : P} (h : q ≠ p) (sem : Option ℕ) (next : Process) :
    (s.set p sem next).procs q = s.procs q :=
  Function.update_of_ne h ..

variable {sem : Option ℕ} {p : P} {next : Process}

/-- No other process is busy. -/
theorem Exclusive.alone (exclusive : s.Exclusive) (regular : next.Regular) (others : ∀ q, (s.procs q).Busy → q = p)
    (zero : next.Busy → sem = some 0) (value : ∀ v, sem = some v → v ≤ 1) : (s.set p sem next).Exclusive where
  regular := Function.forall_update_iff _ _ |>.2 ⟨regular, fun q _ => exclusive.regular q⟩
  busy q hq := by
    have only : ∀ r, ((s.set p sem next).procs r).Busy → r = p := by
      intro r hr
      by_contra ne
      rw [set_procs_of_ne ne] at hr
      exact ne (others r hr)
    obtain rfl := only q hq
    rw [set_procs_self] at hq
    exact ⟨zero hq, only⟩
  value := value

theorem Exclusive.move (exclusive : s.Exclusive) (regular : next.Regular) (move : Move s.sem (s.procs p) sem next) :
    (s.set p sem next).Exclusive := by
  have ⟨regulars, busy, value⟩ := exclusive
  cases move with
  | look inside old =>
    have before : ∀ q, ((s.set p s.sem next).procs q).Busy → (s.procs q).Busy := by
      refine Function.forall_update_iff _ (fun q (proc : Process) => proc.Busy → (s.procs q).Busy) |>.2
        ⟨?_, fun _ _ => id⟩
      rintro (h | h)
      · exact .inl (inside ▸ h)
      · exact absurd h old
    refine ⟨Function.forall_update_iff _ _ |>.2 ⟨regular, fun q _ => regulars q⟩, fun q hq => ?_, value⟩
    obtain ⟨zero, only⟩ := busy q (before q hq)
    exact ⟨zero, fun r hr => only r (before r hr)⟩
  | create absent =>
    exact exclusive.alone regular
      (fun q hq => absurd (absent.symm.trans (busy q hq).1) (by simp)) (fun _ => rfl) (by simp)
  | setVal pc inside old =>
    exact exclusive.alone regular (busy p (.inr pc)).2 (by simp [Process.Busy, inside, old]) (by simp)
  | @enter _ v positive =>
    -- the value was one, so nobody was busy
    obtain rfl : v = 0 := by
      have := value _ positive
      omega
    exact exclusive.alone regular
      (fun q hq => absurd (positive.symm.trans (busy q hq).1) (by simp)) (fun _ => rfl) (by simp)
  | @leave _ v v' before inside outside after old =>
    -- the process was the one that is inside, so the value was zero and is now one
    obtain ⟨zero, only⟩ := busy p (.inl inside)
    have zero : v = 0 := some.inj (before.symm.trans zero)
    refine exclusive.alone regular only (by simp [Process.Busy, outside, old]) fun w h => ?_
    have := some.inj h
    omega

theorem Exclusive.step (exclusive : s.Exclusive) (quiet : s.Quiet e) (h : s.step e = some s') : s'.Exclusive := by
  obtain ⟨sem, next, rfl, regular, move⟩ := step_move (exclusive.regular e.1) quiet h
  exact exclusive.move regular move

/-- If signals come only to the process that holds the lock, the lock is held once at most and the value is at most one.
-/
theorem safe_of_quiet {events : List (P × Event)} (quiet : Along System.step System.Quiet (initial P) events)
    (run : runFrom System.step (initial P) events = some s) : s.Safe := by
  have ⟨_, busy, value⟩ : s.Exclusive := quiet.invariant (fun _ _ _ => .step) exclusive_initial run
  exact ⟨fun p q hp hq => (busy q (.inl hq)).2 p (.inl hp), value⟩

def signalled : List (Fin 3 × Event) :=
  [(0, .install), (0, .begin 0), (0, .call), (0, .call), (0, .call), (0, .call), (0, .signal), (0, .call), (0, .call),
   (1, .begin 0), (1, .call), (1, .call), (1, .call), (1, .call)]

theorem safe_of_quiet_signalled :
    ∃ s, runFrom System.step (initial (Fin 3)) signalled = some s ∧ (s.procs 1).inside = true ∧ s.Safe := by
  have inside : (runFrom System.step (initial (Fin 3)) signalled).map (fun s => (s.procs 1).inside) = some true := by
    decide +kernel
  obtain ⟨s, run, held⟩ := map_eq_some_iff.1 inside
  exact ⟨s, run, held,
    safe_of_quiet (by decide +kernel : Along System.step System.Quiet (initial (Fin 3)) signalled) run⟩

/-- The first process takes the semaphore; the second is told to exit and unlocks it; the third takes it too. -/
def intruder : List (Fin 3 × Event) :=
  [(0, .begin 0), (0, .call), (0, .call), (0, .call), (0, .call),
   (1, .install), (1, .signal), (1, .call), (1, .call), (1, .call), (1, .call),
   (2, .begin 0), (2, .call), (2, .call), (2, .call), (2, .call)]

def bothUnlock : List (Fin 3 × Event) :=
  [(0, .call), (2, .call), (0, .call), (2, .call), (0, .call), (2, .call)]

theorem not_safe_intruder : (runFrom System.step (initial (Fin 3)) intruder).map
        (fun s => ((s.procs 0).inside, (s.procs 2).inside, s.sem)) = some (true, true, some 0) ∧
    (runFrom System.step (initial (Fin 3)) (intruder ++ bothUnlock)).map (fun s => s.sem) = some (some 2) := by
  decide +kernel

end System

end OpenWifi.Bwctl
