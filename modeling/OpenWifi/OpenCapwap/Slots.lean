import OpenWifi.Lib.Steps
import Mathlib.Algebra.Order.Group.Int
import Mathlib.Data.List.Perm.Subperm

/-!
# The slots of the AC

The AC (`ACMainLoop.c`) admits a new WTP when the counter `gActiveWTPs` is below `gMaxWTPs`, and gives it the first slot
that is not in use.
-/

namespace OpenWifi.OpenCapwap

open List Option

/-- A slot of `gWTPs`; an address that is not set is of the family `AF_UNSPEC`. -/
structure WTPSlot (α β : Type) where
  isNotFree : Bool
  address : Option α
  dataaddress : Option α
  sessionID : Option β

/-- A packet: the sender, the socket, whether the transport header is well formed, the id in a keep-alive, and whether
it is a Discovery Request. -/
structure IncomingPacket (α β : Type) where
  address : α
  dataFlag : Bool
  header : Bool
  sessionID : Option β
  discovery : Bool

/-- Where `CWACManageIncomingPacket` is. -/
inductive MainLoop (α β : Type)
  | idle
  | unknown (packet : IncomingPacket α β)
  | admitted (packet : IncomingPacket α β)
  | placed (index : ℕ)

inductive ThreadPhase
  | created
  | running
  | closing
  deriving DecidableEq

/-- `CWManageWTP` for a slot. -/
structure WTPThread where
  index : ℕ
  phase : ThreadPhase
  deriving DecidableEq

/-- The slots, the counter `gActiveWTPs`, the main loop and the threads. -/
structure SlotTable (α β : Type) where
  slots : ℕ → WTPSlot α β
  activeWTPs : ℤ
  mainLoop : MainLoop α β
  threads : List WTPThread

namespace SlotTable

variable {α β : Type}

def start : SlotTable α β where
  slots := fun _ => ⟨false, none, none, none⟩
  activeWTPs := 0
  mainLoop := .idle
  threads := []

def setSlot (i : ℕ) (slot : WTPSlot α β) (s : SlotTable α β) : SlotTable α β :=
  { s with slots := Function.update s.slots i slot }

def freeSlot (i : ℕ) (s : SlotTable α β) : SlotTable α β := s.setSlot i { s.slots i with isNotFree := false }

inductive Launch
  | noList
  | noMemory
  | noThread
  | created

inductive SlotEvent (α β : Type)
  | packet (packet : IncomingPacket α β)
  | check
  | place
  | launch (outcome : Launch)
  | count (i : ℕ)
  | abort (i : ℕ)
  | join (i : ℕ) (sessionID : β)
  | close (i : ℕ)
  | free (i : ℕ)

def advance (i : ℕ) (phase next : ThreadPhase) (threads : List WTPThread) : List WTPThread :=
  ⟨i, next⟩ :: threads.erase ⟨i, phase⟩

def firstFree (maxWTPs : ℕ) (s : SlotTable α β) : ℕ :=
  ((List.range maxWTPs).find? fun i => !(s.slots i).isNotFree).getD maxWTPs

section Steps

variable [DecidableEq α] [DecidableEq β]

/-- The test of `CWWTPByAddress` for a slot; `none` when the id of a session without one is compared. -/
def serves (packet : IncomingPacket α β) (slot : WTPSlot α β) : Option Bool :=
  if !slot.isNotFree then some false
  else if !packet.dataFlag then some (slot.address = some packet.address)
  else
    match packet.sessionID with
    | none => some (slot.dataaddress = some packet.address)
    | some sessionID => slot.sessionID.map fun own => own = sessionID ∨ slot.dataaddress = some packet.address

/-- The loop of `CWWTPByAddress`. -/
def search (packet : IncomingPacket α β) (s : SlotTable α β) : List ℕ → Option (Option ℕ)
  | [] => some none
  | i :: rest => (serves packet (s.slots i)).bind fun found => if found then some (some i) else search packet s rest

/-- The beginning of `CWACManageIncomingPacket`: the first data packet of a known WTP tells its data address. -/
def receive (maxWTPs : ℕ) (packet : IncomingPacket α β) (s : SlotTable α β) : Option (SlotTable α β) :=
  if packet.dataFlag ∧ !packet.header then some s
  else
    (search packet s (List.range maxWTPs)).map fun
      | none => { s with mainLoop := .unknown packet }
      | some i =>
        if packet.dataFlag ∧ (s.slots i).dataaddress = none then
          s.setSlot i { s.slots i with dataaddress := some packet.address }
        else s

/-- One step; `none` when `NULL` is dereferenced.  What cannot happen does nothing. -/
def step (maxWTPs : ℕ) (s : SlotTable α β) : SlotEvent α β → Option (SlotTable α β)
  | .packet packet =>
    match s.mainLoop with
    | .idle => receive maxWTPs packet s
    | _ => some s
  | .check =>
    match s.mainLoop with
    | .unknown packet =>
      some { s with mainLoop := if maxWTPs ≤ s.activeWTPs ∨ packet.discovery then .idle else .admitted packet }
    | _ => some s
  | .place =>
    match s.mainLoop with
    | .admitted packet =>
      let i := s.firstFree maxWTPs
      some { s.setSlot i { s.slots i with isNotFree := true, address := some packet.address, dataaddress := none } with
        mainLoop := .placed i }
    | _ => some s
  | .launch outcome =>
    match s.mainLoop with
    | .placed i =>
      match outcome with
      | .noList => some { s.freeSlot i with mainLoop := .idle }
      | .noMemory => some { s with mainLoop := .idle }
      | .noThread => some { s.freeSlot i with mainLoop := .idle }
      | .created => some { s with mainLoop := .idle, threads := ⟨i, .created⟩ :: s.threads }
    | _ => some s
  | .count i =>
    if ⟨i, .created⟩ ∈ s.threads then
      some { s.setSlot i { s.slots i with sessionID := none } with
        activeWTPs := s.activeWTPs + 1
        threads := advance i .created .running s.threads }
    else some s
  | .abort i =>
    if ⟨i, .created⟩ ∈ s.threads then
      some { s with activeWTPs := s.activeWTPs - 1, threads := advance i .created .closing s.threads }
    else some s
  | .join i sessionID =>
    if ⟨i, .running⟩ ∈ s.threads then some (s.setSlot i { s.slots i with sessionID := some sessionID }) else some s
  | .close i =>
    if ⟨i, .running⟩ ∈ s.threads then
      some { s with activeWTPs := s.activeWTPs - 1, threads := advance i .running .closing s.threads }
    else some s
  | .free i =>
    if ⟨i, .closing⟩ ∈ s.threads then some { s.freeSlot i with threads := s.threads.erase ⟨i, .closing⟩ } else some s

end Steps

def holders (s : SlotTable α β) : List ℕ :=
  (match s.mainLoop with
    | .placed i => [i]
    | _ => []) ++ s.threads.map (·.index)

structure Allocated (maxWTPs : ℕ) (s : SlotTable α β) : Prop where
  index : ∀ i ∈ s.holders, i < maxWTPs
  once : s.holders.Nodup
  address : ∀ i < maxWTPs, ∀ j < maxWTPs, (s.slots i).isNotFree → (s.slots j).isNotFree →
    (s.slots i).address = (s.slots j).address → i = j

variable {maxWTPs : ℕ} {s s' : SlotTable α β} {i : ℕ}

def Asks (s : SlotTable α β) (packet : IncomingPacket α β) : Prop :=
  s.mainLoop = .unknown packet ∨ s.mainLoop = .admitted packet

/-- The slots in use are those of the threads and of the main loop, and the counter counts the running threads.  No
slot in use has the address from which an unknown WTP has sent a control packet; what is admitted is a control packet,
and there is a slot for it. -/
structure Inv (maxWTPs : ℕ) (s : SlotTable α β) : Prop extends Allocated maxWTPs s where
  held : ∀ i ∈ s.holders, (s.slots i).isNotFree
  used : ∀ i < maxWTPs, (s.slots i).isNotFree → i ∈ s.holders
  active : s.activeWTPs = s.threads.countP (·.phase = .running)
  new : ∀ packet, Asks s packet → ¬ packet.dataFlag → ∀ i < maxWTPs, (s.slots i).isNotFree →
    (s.slots i).address ≠ some packet.address
  room : ∀ packet, s.mainLoop = .admitted packet → ¬ packet.dataFlag ∧ ∃ i < maxWTPs, ¬ (s.slots i).isNotFree

theorem slots_setSlot_self (slot : WTPSlot α β) : (s.setSlot i slot).slots i = slot := Function.update_self ..

theorem slots_setSlot_of_ne {j : ℕ} (other : j ≠ i) (slot : WTPSlot α β) : (s.setSlot i slot).slots j = s.slots j :=
  Function.update_of_ne other ..

def Keeps (s s' : SlotTable α β) : Prop :=
  ∀ i, (s'.slots i).isNotFree → (s.slots i).isNotFree ∧ (s'.slots i).address = (s.slots i).address

theorem keeps_setSlot {slot : WTPSlot α β}
    (kept : slot.isNotFree → (s.slots i).isNotFree ∧ slot.address = (s.slots i).address) :
    Keeps s (s.setSlot i slot) := by
  refine (Function.forall_update_iff s.slots fun j b =>
    b.isNotFree → (s.slots j).isNotFree ∧ b.address = (s.slots j).address).2 ⟨kept, fun j _ used => ⟨used, rfl⟩⟩

theorem holders_placed (placed : s.mainLoop = .placed i) : s.holders = i :: s.threads.map (·.index) := by
  rw [holders, placed]
  rfl

theorem holders_unplaced (unplaced : ∀ i, s.mainLoop ≠ .placed i) : s.holders = s.threads.map (·.index) := by
  unfold holders
  split
  case h_1 i placed => exact absurd placed (unplaced i)
  · rfl

theorem firstFree_spec (free : ∃ i < maxWTPs, ¬ (s.slots i).isNotFree) :
    s.firstFree maxWTPs < maxWTPs ∧ ¬ (s.slots (s.firstFree maxWTPs)).isNotFree := by
  obtain ⟨i, lt, free⟩ := free
  unfold firstFree
  cases found : (List.range maxWTPs).find? fun i => !(s.slots i).isNotFree with
  | none => exact absurd (find?_eq_none.1 found i (mem_range.2 lt)) (by simpa using free)
  | some j => exact ⟨mem_range.1 (mem_of_find?_eq_some found), by simpa using find?_some found⟩

/-- The main loop admits a control packet, and only while all threads are running; there is memory for the argument of a
new thread, and no thread ends before it has counted itself. -/
def Proper (maxWTPs : ℕ) (s : SlotTable α β) : SlotEvent α β → Prop
  | .check =>
    match s.mainLoop with
    | .unknown packet =>
      s.activeWTPs < maxWTPs → ¬ packet.discovery → ¬ packet.dataFlag ∧ ∀ t ∈ s.threads, t.phase = .running
    | _ => True
  | .launch .noMemory =>
    match s.mainLoop with
    | .placed _ => False
    | _ => True
  | .abort i => ⟨i, .created⟩ ∉ s.threads
  | _ => True

instance (e : SlotEvent α β) : Decidable (Proper maxWTPs s e) := by
  unfold Proper
  split <;> try split
  all_goals infer_instance

namespace Inv

theorem start : Inv maxWTPs (start : SlotTable α β) where
  index := nofun
  once := nodup_nil
  address := nofun
  held := nofun
  used := nofun
  active := rfl
  new := by rintro packet (asks | asks) <;> cases asks
  room := nofun

variable (inv : Inv maxWTPs s)
include inv

/-- A step in which slots are only given back, each together with its holder. -/
theorem of_keeps (keeps : Keeps s s') (once : s'.holders.Nodup) (subset : s'.holders ⊆ s.holders)
    (same : ∀ i ∈ s.holders, (s'.slots i).isNotFree ↔ i ∈ s'.holders)
    (active : s'.activeWTPs = s'.threads.countP (·.phase = .running))
    (mainLoop : s'.mainLoop = s.mainLoop ∨ ∀ packet, ¬ Asks s' packet) : Inv maxWTPs s' where
  index i mem := inv.index i (subset mem)
  once := once
  address i hi j hj usedI usedJ same := by
    obtain ⟨usedI, addressI⟩ := keeps i usedI
    obtain ⟨usedJ, addressJ⟩ := keeps j usedJ
    exact inv.address i hi j hj usedI usedJ (addressI.symm.trans (same.trans addressJ))
  held i mem := (same i (subset mem)).2 mem
  used i lt used := (same i (inv.used i lt (keeps i used).1)).1 used
  active := active
  new packet asked control i hi used := by
    obtain ⟨used, address⟩ := keeps i used
    have loop := mainLoop.resolve_right fun none => none packet asked
    rw [Asks, loop] at asked
    exact address ▸ inv.new packet asked control i hi used
  room packet asked := by
    have loop := mainLoop.resolve_right fun none => none packet (.inr asked)
    obtain ⟨control, i, lt, free⟩ := inv.room packet (loop.symm.trans asked)
    exact ⟨control, i, lt, fun used => free (keeps i used).1⟩

theorem setSlot {slot : WTPSlot α β} (used : slot.isNotFree = (s.slots i).isNotFree)
    (address : slot.address = (s.slots i).address) : Inv maxWTPs (s.setSlot i slot) := by
  refine inv.of_keeps (keeps_setSlot fun h => ⟨used ▸ h, address⟩) inv.once (List.Subset.refl _) (fun j mem => ?_)
    inv.active (.inl rfl)
  refine iff_of_true ((Function.forall_update_iff s.slots fun j b => j ∈ s.holders → b.isNotFree).2
    ⟨fun mem => ?_, fun j _ => inv.held j⟩ j mem) mem
  exact used.trans (inv.held i mem)

theorem advance {phase next : ThreadPhase} (mem : ⟨i, phase⟩ ∈ s.threads) {active : ℤ}
    (count : active + [phase].countP (· = .running) = s.activeWTPs + [next].countP (· = .running)) :
    Inv maxWTPs { s with activeWTPs := active, threads := advance i phase next s.threads } := by
  have perm := perm_cons_erase mem
  have holders : s.holders.Perm
    (holders { s with activeWTPs := active, threads := SlotTable.advance i phase next s.threads }) :=
    (perm.map (·.index)).append_left _
  refine inv.of_keeps (fun i used => ⟨used, rfl⟩) (holders.nodup_iff.1 inv.once) holders.symm.subset
    (fun j mem => iff_of_true (inv.held j mem) (holders.subset mem)) ?_ (.inl rfl)
  have before := inv.active
  rw [perm.countP_eq] at before
  simp only [SlotTable.advance, countP_cons, countP_nil] at before count ⊢
  omega

/-- A slot is given back by its only holder. -/
theorem release {mainLoop : MainLoop α β} {threads : List WTPThread}
    (holders : s.holders.Perm (i :: SlotTable.holders { s with mainLoop := mainLoop, threads := threads }))
    (active : s.activeWTPs = threads.countP (·.phase = .running))
    (asks : mainLoop = s.mainLoop ∨ ∀ packet, ¬ Asks { s with mainLoop := mainLoop } packet) :
    Inv maxWTPs { s.freeSlot i with mainLoop := mainLoop, threads := threads } := by
  obtain ⟨unheld, once⟩ := nodup_cons.1 (holders.nodup_iff.1 inv.once)
  refine inv.of_keeps (keeps_setSlot nofun) once (fun j mem => holders.symm.subset (mem_cons_of_mem _ mem))
    ?_ active asks
  intro j mem
  by_cases same : j = i
  · exact iff_of_false (by simp [same, SlotTable.freeSlot, slots_setSlot_self]) (same ▸ unheld)
  · refine iff_of_true ?_ ((mem_cons.1 (holders.subset mem)).resolve_left same)
    exact (slots_setSlot_of_ne (s := s) same _).symm ▸ inv.held j mem

theorem launch (placed : s.mainLoop = .placed i) : Inv maxWTPs { s.freeSlot i with mainLoop := .idle } ∧
      Inv maxWTPs { s with mainLoop := .idle, threads := ⟨i, .created⟩ :: s.threads } := by
  have none : ∀ packet, ¬ Asks { s with mainLoop := .idle } packet := by
    rintro packet (asks | asks) <;> cases asks
  have same : SlotTable.holders { s with mainLoop := .idle, threads := ⟨i, .created⟩ :: s.threads } = s.holders :=
    (holders_placed placed).symm
  refine ⟨inv.release (.of_eq (holders_placed placed)) inv.active (.inr none), ?_⟩
  refine inv.of_keeps (fun i used => ⟨used, rfl⟩) (same ▸ inv.once) (same ▸ List.Subset.refl _)
    (fun j mem => iff_of_true (inv.held j mem) (same ▸ mem)) ?_ (.inr none)
  rw [countP_cons_of_neg (by simp)]
  exact inv.active

theorem free (mem : ⟨i, .closing⟩ ∈ s.threads) :
    Inv maxWTPs { s.freeSlot i with threads := s.threads.erase ⟨i, .closing⟩ } := by
  have perm := perm_cons_erase mem
  have holders : s.holders.Perm (i :: SlotTable.holders
      { s with mainLoop := s.mainLoop, threads := s.threads.erase ⟨i, .closing⟩ }) :=
    ((perm.map (·.index)).append_left _).trans perm_middle
  refine inv.release holders ?_ (.inl rfl)
  have before := inv.active
  rwa [perm.countP_eq, countP_cons_of_neg (by simp)] at before

/-- When all threads are running, the admission test is a test for a free slot. -/
theorem exists_free (idle : s.holders = s.threads.map (·.index)) (running : ∀ t ∈ s.threads, t.phase = .running)
    (below : s.activeWTPs < maxWTPs) : ∃ i < maxWTPs, ¬ (s.slots i).isNotFree := by
  by_contra full
  push Not at full
  have all : List.range maxWTPs ⊆ s.threads.map (·.index) := fun i mem =>
    idle ▸ inv.used i (mem_range.1 mem) (full i (mem_range.1 mem))
  have fewer := (nodup_range.subperm all).length_le
  have count : s.threads.countP (·.phase = .running) = s.threads.length := countP_eq_length.2 (by simpa using running)
  have active := inv.active
  rw [length_range, length_map] at fewer
  omega

theorem check {packet : IncomingPacket α β} (unknown : s.mainLoop = .unknown packet)
    (proper : Proper maxWTPs s .check) : Inv maxWTPs
      { s with mainLoop := if maxWTPs ≤ s.activeWTPs ∨ packet.discovery then .idle else .admitted packet } := by
  have idle : s.holders = s.threads.map (·.index) := holders_unplaced (by rw [unknown]; nofun)
  simp only [Proper, unknown] at proper
  split
  case isTrue =>
    refine inv.of_keeps (fun i used => ⟨used, rfl⟩) (idle ▸ inv.once :) (fun j mem => idle ▸ mem)
      (fun j mem => iff_of_true (inv.held j mem) (idle ▸ mem :)) inv.active (.inr ?_)
    rintro packet (asks | asks) <;> cases asks
  case isFalse admits =>
    rw [not_or, not_le] at admits
    obtain ⟨control, running⟩ := proper admits.1 admits.2
    refine { inv with index := (idle ▸ inv.index :), once := (idle ▸ inv.once :), held := (idle ▸ inv.held :)
                      used := fun i lt used => (idle ▸ inv.used i lt used :), new := ?_, room := ?_ }
    · rintro p (asks | asks)
      · cases asks
      · exact inv.new p (.inl (MainLoop.admitted.inj asks ▸ unknown))
    · intro p asked
      obtain rfl := MainLoop.admitted.inj asked
      exact ⟨control, inv.exists_free idle running admits.1⟩

theorem place {packet : IncomingPacket α β} (admitted : s.mainLoop = .admitted packet) :
    let i := s.firstFree maxWTPs
    Inv maxWTPs { s.setSlot i
      { s.slots i with isNotFree := true, address := some packet.address, dataaddress := none } with
      mainLoop := .placed i } := by
  intro i
  obtain ⟨control, free⟩ := inv.room packet admitted
  obtain ⟨lt, unused⟩ : i < maxWTPs ∧ ¬ (s.slots i).isNotFree := firstFree_spec free
  have holders : s.holders = s.threads.map (·.index) := holders_unplaced (by rw [admitted]; nofun)
  have unheld : i ∉ s.threads.map (·.index) := fun mem => unused (inv.held i (holders ▸ mem))
  have fresh := inv.new packet (.inr admitted) control
  generalize slot : ({ s.slots i with isNotFree := true, address := some packet.address, dataaddress := none } :
    WTPSlot α β) = b
  have used : b.isNotFree = true := slot ▸ rfl
  have address : b.address = some packet.address := slot ▸ rfl
  have self : (s.setSlot i b).slots i = b := slots_setSlot_self b
  have others : ∀ j ≠ i, (s.setSlot i b).slots j = s.slots j := fun j other => slots_setSlot_of_ne other b
  refine { index := ?_, once := nodup_cons.2 ⟨unheld, holders ▸ inv.once⟩, address := ?_, held := ?_, used := ?_
           active := inv.active, new := ?_, room := nofun }
  · exact forall_mem_cons.2 ⟨lt, holders ▸ inv.index⟩
  · intro j ltJ k ltK usedJ usedK same
    dsimp only at usedJ usedK same
    by_cases hj : j = i
    · by_cases hk : k = i
      · exact hj.trans hk.symm
      · rw [others k hk] at usedK same
        rw [hj, self, address] at same
        exact absurd same.symm (fresh k ltK usedK)
    · rw [others j hj] at usedJ same
      by_cases hk : k = i
      · rw [hk, self, address] at same
        exact absurd same (fresh j ltJ usedJ)
      · rw [others k hk] at usedK same
        exact inv.address j ltJ k ltK usedJ usedK same
  · refine forall_mem_cons.2 ⟨self.symm ▸ used, fun j mem => ?_⟩
    have other : j ≠ i := fun same => unheld (same ▸ mem)
    exact (others j other).symm ▸ inv.held j (holders ▸ mem)
  · intro j ltJ usedJ
    by_cases same : j = i
    · exact same ▸ mem_cons_self
    · exact mem_cons_of_mem _ (holders ▸ inv.used j ltJ (others j same ▸ usedJ))
  · rintro p (asks | asks) <;> cases asks

end Inv

section Steps

variable [DecidableEq α] [DecidableEq β]

theorem address_ne_of_search {packet : IncomingPacket α β} {indices : List ℕ} (control : ¬ packet.dataFlag)
    (search : search packet s indices = some none) :
    ∀ i ∈ indices, (s.slots i).isNotFree → (s.slots i).address ≠ some packet.address := by
  induction indices with
  | nil => nofun
  | cons j rest ih =>
    obtain ⟨found, serves, next⟩ := bind_eq_some_iff.1 search
    cases found with
    | true => cases next
    | false =>
      refine forall_mem_cons.2 ⟨fun used same => ?_, ih next⟩
      rw [SlotTable.serves, if_neg (by simpa using used), if_pos (by simpa using control)] at serves
      simp [same] at serves

namespace Inv

theorem receive (inv : Inv maxWTPs s) (idle : s.mainLoop = .idle) {packet : IncomingPacket α β}
    (next : receive maxWTPs packet s = some s') : Inv maxWTPs s' := by
  unfold SlotTable.receive at next
  split at next
  · exact some.inj next ▸ inv
  · obtain ⟨found, search, rfl⟩ := map_eq_some_iff.1 next
    cases found with
    | none =>
      have holders : holders { s with mainLoop := .unknown packet } = s.holders := by
        unfold SlotTable.holders
        rw [idle]
      exact { inv with
        index := holders ▸ inv.index
        once := holders ▸ inv.once
        held := holders ▸ inv.held
        used := holders ▸ inv.used
        new := by
          rintro p (asks | asks) control i lt
          · obtain rfl := MainLoop.unknown.inj asks
            exact address_ne_of_search control search i (mem_range.2 lt)
          · cases asks
        room := nofun }
    | some i =>
      dsimp only
      split
      · exact inv.setSlot rfl rfl
      · exact inv

theorem step (inv : Inv maxWTPs s) {e : SlotEvent α β}
    (proper : Proper maxWTPs s e) (next : step maxWTPs s e = some s') :
    Inv maxWTPs s' := by
  cases e with
  | packet packet =>
    simp only [SlotTable.step] at next
    split at next
    case h_1 idle => exact inv.receive idle next
    · exact some.inj next ▸ inv
  | check =>
    simp only [SlotTable.step] at next
    split at next
    case h_1 packet unknown => exact some.inj next ▸ inv.check unknown proper
    · exact some.inj next ▸ inv
  | place =>
    simp only [SlotTable.step] at next
    split at next
    case h_1 packet admitted => exact some.inj next ▸ inv.place admitted
    · exact some.inj next ▸ inv
  | launch outcome =>
    simp only [SlotTable.step] at next
    split at next
    case h_1 i placed =>
      obtain ⟨freed, created⟩ := inv.launch placed
      cases outcome with
      | noList => exact some.inj next ▸ freed
      | noMemory => simp [Proper, placed] at proper
      | noThread => exact some.inj next ▸ freed
      | created => exact some.inj next ▸ created
    · exact some.inj next ▸ inv
  | count i =>
    simp only [SlotTable.step] at next
    split at next
    case isTrue mem =>
      have reset : Inv maxWTPs (s.setSlot i { s.slots i with sessionID := none }) := inv.setSlot rfl rfl
      exact some.inj next ▸ reset.advance mem (by simp [SlotTable.setSlot])
    · exact some.inj next ▸ inv
  | abort i =>
    simp only [SlotTable.step, if_neg proper] at next
    exact some.inj next ▸ inv
  | join i sessionID =>
    simp only [SlotTable.step] at next
    split at next
    · exact some.inj next ▸ inv.setSlot rfl rfl
    · exact some.inj next ▸ inv
  | close i =>
    simp only [SlotTable.step] at next
    split at next
    case isTrue mem => exact some.inj next ▸ inv.advance mem (by simp)
    · exact some.inj next ▸ inv
  | free i =>
    simp only [SlotTable.step] at next
    split at next
    case isTrue mem => exact some.inj next ▸ inv.free mem
    · exact some.inj next ▸ inv

end Inv

/-- The slots are well allocated in every state that a run of proper steps reaches. -/
theorem slots_allocated (events : List (SlotEvent α β)) (proper : Along (step maxWTPs) (Proper maxWTPs) start events)
    (run : runFrom (step maxWTPs) start events = some s) : Allocated maxWTPs s :=
  (proper.invariant (P := Inv maxWTPs) (fun _ _ _ inv proper next => inv.step proper next) Inv.start run).toAllocated

end Steps

def firstPacket (address : ℕ) : IncomingPacket ℕ ℕ := ⟨address, false, true, none, false⟩

def settledRun : List (SlotEvent ℕ ℕ) :=
  [.packet (firstPacket 1), .check, .place, .launch .created, .count 0,
    .packet (firstPacket 2), .check, .place, .launch .created, .count 1, .close 0, .free 0]

theorem slots_allocated_settledRun :
    ∃ s, runFrom (step 2) start settledRun = some s ∧ Allocated 2 s ∧ s.holders = [1] :=
  ⟨_, rfl, slots_allocated settledRun (by decide +kernel) rfl, rfl⟩

def uncountedRun : List (SlotEvent ℕ ℕ) :=
  [.packet (firstPacket 1), .check, .place, .launch .created, .packet (firstPacket 2), .check, .place]

def closingRun : List (SlotEvent ℕ ℕ) :=
  [.packet (firstPacket 1), .check, .place, .launch .created, .count 0, .close 0, .packet (firstPacket 2),
    .check, .place]

def dataRun : List (SlotEvent ℕ ℕ) :=
  [.packet (firstPacket 1), .check, .place, .launch .created, .count 0, .packet ⟨1, true, true, none, false⟩,
    .check, .place]

theorem slots_misallocated : (∃ s, runFrom (step 1) start uncountedRun = some s ∧ ¬ Allocated 1 s) ∧
    (∃ s, runFrom (step 1) start closingRun = some s ∧ ¬ Allocated 1 s) ∧
    ∃ s, runFrom (step 2) start dataRun = some s ∧ ¬ Allocated 2 s := by
  refine ⟨⟨_, rfl, fun allocated => ?_⟩, ⟨_, rfl, fun allocated => ?_⟩, ⟨_, rfl, fun allocated => ?_⟩⟩
  · exact absurd (allocated.index 1 (by decide +kernel)) (by decide)
  · exact absurd (allocated.index 1 (by decide +kernel)) (by decide)
  · exact absurd (allocated.address 0 (by decide) 1 (by decide) rfl rfl rfl) (by decide)

end SlotTable

end OpenWifi.OpenCapwap
