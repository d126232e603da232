import Mathlib.Data.Set.Insert
import OpenWifi.Lib.Steps

/-!
# The tables of trusted addresses

`tip.c` and `tmac.c` keep the trusted addresses in hash tables of the same form.  The completed operations are compared
with the same operations on a set.
-/

namespace OpenWifi.WifiPortal

open Function (update update_apply)

/-- `tip_hash_func`. -/
def tipHash (addr : UInt32) : ℕ := (addr &&& 127).toNat

/-- `tmac_hash_func`. -/
def tmacHash (addr : Vector UInt8 6) : ℕ :=
  (addr[3].toNat <<< 8 ||| addr[4].toNat <<< 4 ||| addr[5].toNat) &&& 127

open List

inductive Operation (α : Type*)
  | add (addr : α)
  | addFailed (addr : α)
  | del (addr : α)
  | clear
  | trusted (addr : α) (answer : Bool)
  deriving DecidableEq

structure Record (α : Type*) where
  operation : Operation α
  start : ℕ
  stop : ℕ
  deriving DecidableEq

/-- The chains, the insertions under way with the time of the search, and the completed operations, the last one first.
-/
structure State (α : Type*) where
  table : ℕ → List α
  adding : ℕ → Option (α × ℕ)
  clock : ℕ
  history : List (Record α)

/-- The steps.  A writer has a number; `noMemory` is an insertion without memory for the entry. -/
inductive Event (α : Type*)
  | find (writer : ℕ) (addr : α)
  | insert (writer : ℕ)
  | noMemory (writer : ℕ)
  | del (addr : α)
  | clear
  | trusted (addr : α)

variable {α : Type*} [DecidableEq α]

namespace State

def complete (s : State α) (operation : Operation α) (start : ℕ) : State α :=
  { s with clock := s.clock + 1, history := ⟨operation, start, s.clock⟩ :: s.history }

variable (hash : α → ℕ) (s : State α)

/-- `tip_find` and `tmac_find` in the chain of the address. -/
def found (addr : α) : Bool := addr ∈ s.table (hash addr)

def step : Event α → Option (State α)
  | .find writer addr =>
    if (s.adding writer).isSome then none
    else if s.found hash addr then some (s.complete (.add addr) s.clock)
    else some { s with clock := s.clock + 1, adding := update s.adding writer (some (addr, s.clock)) }
  | .insert writer => (s.adding writer).map fun (addr, start) =>
    { s with adding := update s.adding writer none
             table := update s.table (hash addr) (addr :: s.table (hash addr)) }.complete (.add addr) start
  | .noMemory writer => (s.adding writer).map fun (addr, start) =>
    { s with adding := update s.adding writer none }.complete (.addFailed addr) start
  | .del addr =>
    -- only the first entry that is found goes
    some ({ s with table := update s.table (hash addr) ((s.table (hash addr)).erase addr) }.complete
      (.del addr) s.clock)
  | .clear => some ({ s with table := fun _ => [] }.complete .clear s.clock)
  | .trusted addr => some (s.complete (.trusted addr (s.found hash addr)) s.clock)

def init : State α := ⟨fun _ => [], fun _ => none, 0, []⟩

def Single : Event α → Prop
  | .del addr => (s.table (hash addr)).count addr ≤ 1
  | _ => True

instance (hash : α → ℕ) (s : State α) (e : Event α) : Decidable (s.Single hash e) := by
  cases e <;> dsimp only [State.Single] <;> infer_instance

end State

def Operation.effect (set : Set α) : Operation α → Set α
  | .add addr => insert addr set
  | .del addr => set \ {addr}
  | .clear => ∅
  | .addFailed _ | .trusted _ _ => set

def contents : List (Record α) → Set α
  | [] => ∅
  | r :: earlier => r.operation.effect (contents earlier)

def Agrees : List (Record α) → Prop
  | [] => True
  | r :: earlier =>
    (∀ addr answer, r.operation = .trusted addr answer → (answer = true ↔ addr ∈ contents earlier)) ∧ Agrees earlier

def InRealTime (history : List (Record α)) : Prop :=
  history.Pairwise fun later earlier => ¬later.stop < earlier.start

omit [DecidableEq α] in
theorem notMem_contents {addr : α} {later : List (Record α)} {set : List (Record α)} (out : addr ∉ contents set)
    (noAdd : ∀ r ∈ later, r.operation ≠ .add addr) : addr ∉ contents (later ++ set) := by
  induction later with
  | nil => exact out
  | cons r later ih =>
    have before := ih fun x mem => noAdd x (mem_cons_of_mem _ mem)
    have here := noAdd r mem_cons_self
    rw [cons_append, contents]
    cases op : r.operation with
    | add other =>
      rintro (rfl | mem)
      · exact here op
      · exact before mem
    | del other => exact fun mem => before mem.1
    | clear => exact id
    | addFailed other => exact before
    | trusted other answer => exact before

structure Linear (hash : α → ℕ) (s : State α) : Prop where
  found_iff : ∀ addr, s.found hash addr = true ↔ addr ∈ contents s.history
  agrees : Agrees s.history
  realTime : InRealTime s.history
  past : ∀ r ∈ s.history, r.start < s.clock
  adding : ∀ writer addr start, s.adding writer = some (addr, start) → start < s.clock

theorem linear_init (hash : α → ℕ) : Linear hash (State.init : State α) where
  found_iff addr := by simp [State.found, State.init, contents]
  agrees := trivial
  realTime := List.Pairwise.nil
  past _ mem := absurd mem not_mem_nil
  adding _ _ _ h := absurd h nofun

variable {hash : α → ℕ} {s s' t : State α} {e : Event α}

theorem Linear.complete (h : Linear hash s) {operation : Operation α} {start : ℕ}
    (clock : t.clock = s.clock) (history : t.history = s.history)
    (adding : ∀ writer x, t.adding writer = some x → s.adding writer = some x) (le : start ≤ s.clock)
    (found : ∀ addr, t.found hash addr = true ↔ addr ∈ operation.effect (contents s.history))
    (answer : ∀ addr a, operation = .trusted addr a → a = s.found hash addr) :
    Linear hash (t.complete operation start) where
  found_iff addr := by
    refine (found addr).trans ?_
    simp [State.complete, history, contents]
  agrees := by
    refine ⟨fun addr a op => ?_, by rw [history]; exact h.agrees⟩
    rw [answer addr a op, history]
    exact h.found_iff addr
  realTime := by
    refine pairwise_cons.2 ⟨fun r mem => ?_, by rw [history]; exact h.realTime⟩
    rw [history] at mem
    have := h.past r mem
    simp only [clock]
    omega
  past r mem := by
    simp only [State.complete, clock, history, mem_cons] at mem ⊢
    rcases mem with rfl | mem
    · exact Nat.lt_succ_of_le le
    · exact Nat.lt_succ_of_lt (h.past r mem)
  adding writer addr start' running := by
    have := h.adding writer addr start' (adding writer _ running)
    simp only [State.complete, clock]
    omega

omit [DecidableEq α] in
theorem adding_of_update {writer : ℕ} (writer' : ℕ) (x : α × ℕ)
    (running : update s.adding writer none writer' = some x) : s.adding writer' = some x := by
  rw [update_apply] at running
  split at running
  · exact absurd running nofun
  · exact running

theorem found_update (addr other : α) (chain : List α) :
    State.found hash { s with table := update s.table (hash other) chain } addr =
      if hash addr = hash other then decide (addr ∈ chain) else s.found hash addr := by
  simp only [State.found, update_apply]
  split <;> rfl

theorem found_insert (h : Linear hash s) (addr other : α) :
    State.found hash { s with table := update s.table (hash other) (other :: s.table (hash other)) } addr =
      true ↔ addr ∈ (Operation.add other).effect (contents s.history) := by
  rw [found_update]
  have found := h.found_iff addr
  unfold State.found at found
  split
  next same =>
    rw [same] at found
    simpa [Operation.effect] using or_congr_right (by simpa using found)
  next apart =>
    have ne : addr ≠ other := fun eq => apart (eq ▸ rfl)
    simpa [Operation.effect, ne, State.found] using found

theorem found_erase (h : Linear hash s) (addr : α) {other : α} (single : (s.table (hash other)).count other ≤ 1) :
    State.found hash { s with table := update s.table (hash other) ((s.table (hash other)).erase other) }
      addr = true ↔ addr ∈ (Operation.del other).effect (contents s.history) := by
  rw [found_update]
  have found := h.found_iff addr
  unfold State.found at found
  by_cases ne : addr = other
  · subst ne
    have gone : addr ∉ (s.table (hash addr)).erase addr := by
      rw [← count_eq_zero, count_erase_self]
      omega
    simp [Operation.effect, gone]
  · split
    next same =>
      rw [same] at found
      simpa [Operation.effect, ne, mem_erase_of_ne ne] using found
    · simpa [Operation.effect, ne, State.found] using found

theorem Linear.step (h : Linear hash s) (single : s.Single hash e) (next : s.step hash e = some s') :
    Linear hash s' := by
  cases e with
  | find writer addr =>
    simp only [State.step] at next
    split at next
    · exact absurd next nofun
    · split at next
      next present =>
        cases next
        refine h.complete rfl rfl (fun _ _ => id) le_rfl (fun x => ?_) nofun
        rw [h.found_iff, Operation.effect, Set.insert_eq_of_mem ((h.found_iff addr).1 present)]
      · cases next
        refine ⟨h.found_iff, h.agrees, h.realTime, fun r mem => Nat.lt_succ_of_lt (h.past r mem), ?_⟩
        intro writer' addr' start running
        simp only [update_apply] at running
        split at running
        · cases running
          exact Nat.lt_succ_self _
        · exact Nat.lt_succ_of_lt (h.adding _ _ _ running)
  | insert writer =>
    obtain ⟨⟨addr, start⟩, running, rfl⟩ := Option.map_eq_some_iff.1 next
    exact h.complete rfl rfl adding_of_update (h.adding _ _ _ running).le (fun x => found_insert h x addr) nofun
  | noMemory writer =>
    obtain ⟨⟨addr, start⟩, running, rfl⟩ := Option.map_eq_some_iff.1 next
    exact h.complete rfl rfl adding_of_update (h.adding _ _ _ running).le h.found_iff nofun
  | del addr =>
    cases next
    exact h.complete rfl rfl (fun _ _ => id) le_rfl (fun x => found_erase h x single) nofun
  | clear =>
    cases next
    exact h.complete rfl rfl (fun _ _ => id) le_rfl (fun x => by simp [State.found, Operation.effect]) nofun
  | trusted addr =>
    cases next
    refine h.complete rfl rfl (fun _ _ => id) le_rfl h.found_iff fun x a eq => ?_
    obtain ⟨rfl, rfl⟩ := Operation.trusted.inj eq
    rfl

/-! ## Insertions that do not overlap -/

/-- No two insertions of an address are under way at a time. -/
def State.Apart (s : State α) : Event α → Prop
  | .find _ addr => ∀ writer start, s.adding writer ≠ some (addr, start)
  | _ => True

structure State.Once (hash : α → ℕ) (s : State α) : Prop where
  count_le : ∀ addr, (s.table (hash addr)).count addr ≤ 1
  absent : ∀ writer addr start, s.adding writer = some (addr, start) → addr ∉ s.table (hash addr)
  alone : ∀ writer writer' addr start start', s.adding writer = some (addr, start) →
    s.adding writer' = some (addr, start') → writer = writer'

theorem State.Once.fewer (h : s.Once hash) (table : ∀ i, t.table i <+ s.table i)
    (adding : ∀ writer x, t.adding writer = some x → s.adding writer = some x) : t.Once hash where
  count_le addr := ((table _).count_le addr).trans (h.count_le addr)
  absent writer addr start running mem := h.absent writer addr start (adding _ _ running) ((table _).subset mem)
  alone writer writer' addr start start' running running' :=
    h.alone writer writer' addr start start' (adding _ _ running) (adding _ _ running')

theorem State.Once.begin (h : s.Once hash) {writer : ℕ} {addr : α} (absent : ¬ s.found hash addr)
    (apart : ∀ writer start, s.adding writer ≠ some (addr, start)) {clock : ℕ} :
    State.Once hash { s with clock := clock, adding := update s.adding writer (some (addr, s.clock)) } := by
  refine ⟨h.count_le, fun w a start running => ?_, fun w w' a start start' running running' => ?_⟩
  · simp only [update_apply] at running
    split at running
    · cases running
      simpa [State.found] using absent
    · exact h.absent w a start running
  · simp only [update_apply] at running running'
    split at running <;> split at running'
    next here there => exact here.trans there.symm
    · cases running
      exact absurd running' (apart w' start')
    · cases running'
      exact absurd running (apart w start)
    · exact h.alone w w' a start start' running running'

theorem State.Once.insert (h : s.Once hash) {writer : ℕ} {addr : α} {start : ℕ}
    (running : s.adding writer = some (addr, start)) :
    State.Once hash { s with adding := update s.adding writer none
                             table := update s.table (hash addr) (addr :: s.table (hash addr)) } := by
  have absent := h.absent writer addr start running
  refine ⟨fun a => ?_, fun w a start' running' => ?_, fun w w' a start₁ start₂ running₁ running₂ => ?_⟩
  · have count := h.count_le a
    simp only [update_apply]
    split
    next same =>
      rw [same] at count
      rw [count_cons]
      split
      next eq =>
        obtain rfl : addr = a := by simpa using eq
        rw [count_eq_zero.2 absent]
      · exact count
    · exact count
  · simp only [update_apply] at running' ⊢
    split at running'
    · cases running'
    next other =>
      have out := h.absent w a start' running'
      split
      next same =>
        rw [same] at out
        rintro (_ | ⟨_, mem⟩)
        · exact other (h.alone w writer _ start' start running' running)
        · exact out mem
      · exact out
  · exact h.alone w w' a start₁ start₂ (adding_of_update _ _ running₁) (adding_of_update _ _ running₂)

theorem State.Once.step (h : s.Once hash) (apart : s.Apart e) (next : s.step hash e = some s') : s'.Once hash := by
  cases e with
  | find writer addr =>
    simp only [State.step] at next
    split at next
    · cases next
    · split at next <;> cases next
      · exact h.fewer (fun _ => .refl _) fun _ _ => id
      next absent => exact h.begin absent apart
  | insert writer =>
    obtain ⟨⟨addr, start⟩, running, rfl⟩ := Option.map_eq_some_iff.1 next
    exact (h.insert running).fewer (fun _ => .refl _) fun _ _ => id
  | noMemory writer =>
    obtain ⟨⟨addr, start⟩, running, rfl⟩ := Option.map_eq_some_iff.1 next
    exact h.fewer (fun _ => .refl _) adding_of_update
  | del addr =>
    cases next
    refine h.fewer (fun i => ?_) fun _ _ => id
    simp only [State.complete, update_apply]
    split
    next here => exact here ▸ erase_sublist
    · exact .refl _
  | clear =>
    cases next
    exact h.fewer (fun _ => nil_sublist _) fun _ _ => id
  | trusted addr =>
    cases next
    exact h.fewer (fun _ => .refl _) fun _ _ => id

/-- When no two insertions of an address overlap, every deletion finds one entry at most. -/
theorem single_of_apart {es : List (Event α)} (apart : Along (State.step hash) State.Apart .init es) :
    Along (State.step hash) (State.Single hash) .init es := by
  refine apart.imp (fun _ _ _ h apart next => h.step apart next) (fun s e h _ => ?_)
    (⟨by simp [State.init], nofun, nofun⟩ : (State.init : State α).Once hash)
  cases e with
  | del addr => exact h.count_le addr
  | _ => trivial

/-- If no deletion finds two entries of its address, the answers agree with the completed operations on a set, in an
order that is compatible with real time. -/
theorem trusted_linearizable {es : List (Event α)} (along : Along (State.step hash) (State.Single hash) .init es)
    (run : runFrom (State.step hash) .init es = some s) : Agrees s.history ∧ InRealTime s.history ∧
      ∀ addr r later earlier, s.history = later ++ r :: earlier → r.operation = .del addr →
        (∀ x ∈ later, x.operation ≠ .add addr) → s.found hash addr = false := by
  have linear := along.invariant (fun _ _ _ => Linear.step) (linear_init hash) run
  refine ⟨linear.agrees, linear.realTime, fun addr r later earlier eq del noAdd => ?_⟩
  have out : addr ∉ contents (r :: earlier) := by
    rw [contents, del]
    exact fun mem => mem.2 rfl
  rw [← Bool.not_eq_true, linear.found_iff, eq]
  exact notMem_contents out noAdd

theorem trusted_linearizable_tip :
    let es : List (Event UInt32) := [.find 0 7, .find 1 135, .insert 0, .insert 1, .del 7, .trusted 7]
    ∃ s, runFrom (State.step tipHash) .init es = some s ∧ Agrees s.history ∧ s.found tipHash 7 = false := by
  intro es
  have along : Along (State.step tipHash) (State.Single tipHash) .init es := by decide +kernel
  refine ⟨_, rfl, ?_⟩
  obtain ⟨agrees, -, deleted⟩ := trusted_linearizable along rfl
  exact ⟨agrees, deleted 7 ⟨.del 7, 4, 4⟩ [⟨.trusted 7 false, 5, 5⟩] _ rfl rfl (by decide)⟩

/-- Two writers that add the same address at the same time leave two entries, and a deletion removes only one of them.
-/
theorem trusted_after_del :
    ((runFrom (State.step tipHash) .init [.find 0 7, .find 1 7, .insert 0, .insert 1, .del 7, .trusted 7]).map
      (·.history)) = some [⟨.trusted 7 true, 5, 5⟩, ⟨.del 7, 4, 4⟩, ⟨.add 7, 1, 3⟩, ⟨.add 7, 0, 2⟩] ∧
    ((runFrom (State.step tmacHash) .init
      [.find 0 #v[0, 1, 2, 3, 4, 5], .find 1 #v[0, 1, 2, 3, 4, 5], .insert 0, .insert 1,
        .del #v[0, 1, 2, 3, 4, 5], .trusted #v[0, 1, 2, 3, 4, 5]]).map fun s => s.history.head?) =
      some (some ⟨.trusted #v[0, 1, 2, 3, 4, 5] true, 5, 5⟩) := by
  decide +kernel

end OpenWifi.WifiPortal
