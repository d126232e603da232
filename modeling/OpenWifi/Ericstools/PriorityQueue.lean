import OpenWifi.Ericstools.LongMap
import OpenWifi.Ericstools.Lists
import OpenWifi.Lib.Steps

/-!
# The priority queue

`priority_queue.c` keeps a queue in four linked structures: a map from the priorities to lists of elements, the lists, a
map from the hash of an id to the place of the element, and a pointer to the first element.  What `malloc` returns is an
argument of an operation.
-/

namespace OpenWifi.Ericstools

open Function (update)

/-- `priority_queue_node`. -/
structure Item (Id V : Type) where
  priority : ℕ
  id : Id
  value : V
  deriving DecidableEq

/-- `id_map_node`. -/
structure IdMapNode where
  idList : ℕ
  idNode : ℕ
  deriving DecidableEq

/-- `priority_queue` with the memory that it uses. -/
structure PriorityQueue (Id V : Type) where
  priorities : LongMap ℕ ℕ
  ids : LongMap ℕ ℕ
  first : Option ℕ
  length : ℤ
  lists : ListMemory ℕ
  items : ℕ → Option (Item Id V)
  idNodes : ℕ → Option IdMapNode

/-- What `malloc` returns for a list node, a list and an id node. -/
structure Addresses where
  node : ℕ
  list : ℕ
  idNode : ℕ
  deriving DecidableEq

/-- `sdbm_string_hash`, with `unsigned long` of `w` bits, for the characters converted to `unsigned int`. -/
def sdbmStringHash (w : ℕ) (key : List (BitVec 32)) : ℕ :=
  (key.foldl (fun (hashedKey : BitVec w) nextch =>
    nextch.setWidth w + (hashedKey <<< 6) + (hashedKey <<< 16) - hashedKey) 0#w).toNat

/-- The value at the head of a list, which is taken off and put back; `NULL` without a list. -/
def headValue (h : ListMemory ℕ) : Option ℕ → Option (ListMemory ℕ × Option ℕ)
  | none => some (h, none)
  | some l => do
    let (h, nextFirstNode) ← h.shiftListNode (some l)
    let n ← nextFirstNode
    let c ← h.nodes n
    let h ← h.unshiftListNode (some l) (some n)
    some (h, some c.value)

namespace PriorityQueue

variable {Id V : Type} (hash : Id → ℕ)

/-- `initialize_priority_queue`. -/
def initializePriorityQueue : PriorityQueue Id V where
  priorities := .initializeLongMap
  ids := .initializeLongMap
  first := none
  length := 0
  lists := .empty
  items _ := none
  idNodes _ := none

variable (q : PriorityQueue Id V)

/-- The part of `push_priority_queue_node` that puts the node into the list of its priority. -/
def enqueue (pn priority : ℕ) (new : Addresses) : Option (LongMap ℕ ℕ × ListMemory ℕ × ℕ) := do
  let lists := (q.lists.createListNode new.node pn).initializeList new.list
  let lists ← lists.pushListNode (some new.list) (some new.node)
  let (priorities, oldList) ← q.priorities.set priority (some new.list)
  match oldList with
  | none => some (priorities, lists, new.list)
  | some old =>
    let lists ← lists.pushListNode (some old) (some new.node)
    let (priorities, _) ← priorities.set priority (some old)
    some (priorities, lists.freeList new.list, old)

/-- The part of `push_priority_queue_node` that updates the first element. -/
def firstAfterPush (pn priority : ℕ) : Option ℕ :=
  match q.first with
  | none => some pn
  | some first => (q.items first).map fun top => if priority < top.priority then pn else first

/-- `push_priority_queue_node`. -/
def pushPriorityQueueNode (pn : ℕ) (new : Addresses) : Option (PriorityQueue Id V) := do
  let item ← q.items pn
  let (priorities, lists, newList) ← q.enqueue pn item.priority new
  let first ← q.firstAfterPush pn item.priority
  let (ids, _) ← q.ids.set (hash item.id) (some new.idNode)
  some { q with
    priorities, ids, lists
    first := some first
    length := q.length + 1
    idNodes := update q.idNodes new.idNode (some ⟨newList, new.node⟩) }

/-- The part of `shift_priority_queue_node` that destroys the list when it has become empty and puts it back otherwise.
-/
def putBack (priorities : LongMap ℕ ℕ) (lists : ListMemory ℕ) (priority nextList : ℕ) :
    Option (LongMap ℕ ℕ × ListMemory ℕ × Option ℕ) := do
  let o ← lists.lists nextList
  if o.length = 0 then
    let lists ← lists.destroyList nextList
    some (priorities, lists, (priorities.getSmallest 0).1)
  else
    let (priorities, _) ← priorities.set priority (some nextList)
    some (priorities, lists, some nextList)

/-- `shift_priority_queue_node`. -/
def shiftPriorityQueueNode : Option (PriorityQueue Id V × Option ℕ) :=
  match q.first with
  | none => some (q, none)
  | some first => do
    let top ← q.items first
    let (priorities, nextList) ← q.priorities.remove top.priority
    let (lists, smallestListNode) ← q.lists.shiftListNode nextList
    let nextList ← nextList
    let (priorities, lists, nextFirstList) ← putBack priorities lists top.priority nextList
    let node ← smallestListNode
    let (lists, returnNode) ← lists.freeListNode node
    let item ← q.items returnNode
    let (ids, idn) ← q.ids.remove (hash item.id)
    let (lists, first) ← headValue lists nextFirstList
    some ({ q with
      priorities, ids, lists, first
      length := q.length - 1
      idNodes := idn.elim q.idNodes (update q.idNodes · none) }, some returnNode)

/-- The part of `remove_priority_queue_node_with_id` that takes a list out of the map when it has become empty. -/
def dropIfEmpty (lists : ListMemory ℕ) (idList returnNode : ℕ) : Option (LongMap ℕ ℕ × ListMemory ℕ) := do
  let o ← lists.lists idList
  if o.length = 0 then
    let item ← q.items returnNode
    let (priorities, _) ← q.priorities.remove item.priority
    let lists ← lists.destroyList idList
    some (priorities, lists)
  else some (q.priorities, lists)

/-- The part of `remove_priority_queue_node_with_id` that looks for the first element again when it was removed. -/
def firstAfterRemoval (priorities : LongMap ℕ ℕ) (lists : ListMemory ℕ) (returnNode : ℕ) :
    Option (ListMemory ℕ × Option ℕ) :=
  if some returnNode = q.first then headValue lists (priorities.getSmallest 0).1 else some (lists, q.first)

/-- `remove_priority_queue_node_with_id`. -/
def removePriorityQueueNodeWithId (id : Id) : Option (PriorityQueue Id V × Option ℕ) := do
  let (ids, idn) ← q.ids.remove (hash id)
  match idn with
  | none => some ({ q with ids }, none)
  | some idn =>
    let entry ← q.idNodes idn
    let lists ← q.lists.removeInternalListNode (some entry.idList) (some entry.idNode)
    let (lists, returnNode) ← lists.freeListNode entry.idNode
    let (priorities, lists) ← q.dropIfEmpty lists entry.idList returnNode
    let (lists, first) ← q.firstAfterRemoval priorities lists returnNode
    some ({ q with
      priorities, ids, lists, first
      length := q.length - 1
      idNodes := update q.idNodes idn none }, some returnNode)

/-- `set_priority_for_id_in_priority_queue`. -/
def setPriorityForIdInPriorityQueue (id : Id) (priority : ℕ) (new : Addresses) : Option (PriorityQueue Id V) := do
  let (q, idPqNode) ← q.removePriorityQueueNodeWithId hash id
  let n ← idPqNode
  let item ← q.items n
  { q with items := update q.items n (some { item with priority }) }.pushPriorityQueueNode hash n new

/-- `push_priority_queue`, when `malloc` returns `pn` for the element. -/
def pushPriorityQueue (priority : ℕ) (id : Id) (value : V) (pn : ℕ) (new : Addresses) : Option (PriorityQueue Id V) :=
  { q with items := update q.items pn (some ⟨priority, id, value⟩) }.pushPriorityQueueNode hash pn new

/-- What `shift_priority_queue` and `remove_priority_queue_element_with_id` do with the element: it is read and freed.
-/
def release : Option ℕ → Option (PriorityQueue Id V × Option (Item Id V))
  | none => some (q, none)
  | some pn => (q.items pn).map fun item => ({ q with items := update q.items pn none }, some item)

/-- `shift_priority_queue`. -/
def shiftPriorityQueue : Option (PriorityQueue Id V × Option (Item Id V)) := do
  let (q, pn) ← q.shiftPriorityQueueNode hash
  q.release pn

/-- `peek_priority_queue`. -/
def peekPriorityQueue : Option (Option (Item Id V)) :=
  match q.first with
  | none => some none
  | some first => (q.items first).map some

/-- `remove_priority_queue_element_with_id`. -/
def removePriorityQueueElementWithId (id : Id) : Option (PriorityQueue Id V × Option (Item Id V)) := do
  let (q, pn) ← q.removePriorityQueueNodeWithId hash id
  q.release pn

/-- A call of the library, with what `malloc` returns. -/
inductive Call (Id V : Type) where
  | push (priority : ℕ) (id : Id) (value : V) (pn : ℕ) (new : Addresses)
  | shift
  | peek
  | remove (id : Id)
  | setPriority (id : Id) (priority : ℕ) (new : Addresses)

def call : Call Id V → Option (PriorityQueue Id V × Option (Item Id V))
  | .push priority id value pn new => (q.pushPriorityQueue hash priority id value pn new).map (·, none)
  | .shift => q.shiftPriorityQueue hash
  | .peek => q.peekPriorityQueue.map (q, ·)
  | .remove id => q.removePriorityQueueElementWithId hash id
  | .setPriority id priority new => (q.setPriorityForIdInPriorityQueue hash id priority new).map (·, none)

/-! ## Looking up an element -/

/-- What the id map leads to for a hash. -/
def nodeAt (key : ℕ) : Option (Option ℕ) :=
  match q.ids.get key with
  | none => some none
  | some idn => do
    let entry ← q.idNodes idn
    let node ← q.lists.nodes entry.idNode
    some (some node.value)

/-- `get_priority_queue_node_with_id`. -/
def getPriorityQueueNodeWithId (id : Id) : Option (Option ℕ) := q.nodeAt (hash id)

/-- `get_priority_queue_element_with_id`. -/
def getPriorityQueueElementWithId (id : Id) : Option (PriorityQueue Id V × Option (Item Id V)) := do
  let pn ← q.getPriorityQueueNodeWithId hash id
  q.release pn

/-- What `n` calls of `shift_priority_queue` return. -/
def shifts (n : ℕ) (q : PriorityQueue Id V) : Option (List (Option (Item Id V))) :=
  match n with
  | 0 => some []
  | n + 1 => do
    let (q, item) ← q.shiftPriorityQueue hash
    let items ← shifts n q
    some (item :: items)

/-- The queue points to the element from its first element, from the id map or from a list. -/
def Reaches (pn : ℕ) : Prop :=
  q.first = some pn ∨ (∃ key, q.nodeAt key = some (some pn)) ∨ ∃ n node, q.lists.nodes n = some node ∧ node.value = pn

def Queued (id : Id) : Prop := ∃ pn item, q.Reaches pn ∧ q.items pn = some item ∧ item.id = id

/-- Looking up the id leaves the queue as it is, and a new priority for an absent id changes nothing. -/
structure LeftIntact (id : Id) : Prop where
  lookup : ∃ q' item, q.getPriorityQueueElementWithId hash id = some (q', item) ∧
    (∀ n, shifts hash n q' = shifts hash n q) ∧ ∀ pn, q'.Reaches pn → q.items pn ≠ none → q'.items pn ≠ none
  absent : ¬ q.Queued id → ∀ priority new, q.setPriorityForIdInPriorityQueue hash id priority new = some q

variable {hash q} {id : Id}

theorem LeftIntact.get_eq_none (intact : q.LeftIntact hash id) : q.ids.get (hash id) = none := by
  obtain ⟨q', item, run, -, live⟩ := intact.lookup
  rcases found : q.ids.get (hash id) with _ | idn
  · rfl
  -- the element is freed, and the queue still points to it
  obtain ⟨pn, at_, freed⟩ := Option.bind_eq_some_iff.1 run
  rcases pn with _ | pn
  · simp [getPriorityQueueNodeWithId, nodeAt, found, Option.bind_eq_some_iff] at at_
  · obtain ⟨x, there, eq⟩ := Option.map_eq_some_iff.1 freed
    cases eq
    exact absurd (Function.update_self ..) (live pn (.inr (.inl ⟨hash id, at_⟩)) (there ▸ nofun))

theorem setPriority_of_get_eq_none (missing : q.ids.get (hash id) = none) (priority : ℕ) (new : Addresses) :
    q.setPriorityForIdInPriorityQueue hash id priority new = none := by
  rcases removed : q.ids.remove (hash id) with _ | ⟨ids, idn⟩
  · simp [setPriorityForIdInPriorityQueue, removePriorityQueueNodeWithId, removed]
  · obtain rfl : idn = none := (LongMap.remove_value removed).trans missing
    simp [setPriorityForIdInPriorityQueue, removePriorityQueueNodeWithId, removed]

/-- **A look-up frees the element, and a new priority for an absent id reads through `NULL`.** The queue is left intact
only where the id map has lost an element that is still queued. -/
theorem leftIntact_iff (hash : Id → ℕ) (q : PriorityQueue Id V) (id : Id) :
    q.LeftIntact hash id ↔ q.ids.get (hash id) = none ∧ q.Queued id := by
  refine ⟨fun intact => ⟨intact.get_eq_none, ?_⟩, fun ⟨missing, queued⟩ =>
    ⟨⟨q, none, ?_, fun _ => rfl, fun _ _ live => live⟩, ?_⟩⟩
  · by_contra absent
    have kept := intact.absent absent 0 ⟨0, 0, 0⟩
    rw [setPriority_of_get_eq_none intact.get_eq_none] at kept
    exact nomatch kept
  · simp [getPriorityQueueElementWithId, getPriorityQueueNodeWithId, nodeAt, missing, release]
  · exact fun absent => absurd queued absent

/-- A queue with one element, which is looked up. -/
theorem not_leftIntact_one : ∃ q : PriorityQueue (List (BitVec 32)) ℕ,
    initializePriorityQueue.pushPriorityQueue (sdbmStringHash 32) 5 [97#32] 10 0 ⟨0, 0, 0⟩ = some q ∧
      ¬ q.LeftIntact (sdbmStringHash 32) [97#32] := by
  refine ⟨_, rfl, fun intact => absurd intact.get_eq_none ?_⟩
  decide +kernel

end PriorityQueue

def front {α : Type} (priority : α → ℕ) (xs : List α) : Option α :=
  (xs.filter fun x => ∀ y ∈ xs, priority x ≤ priority y).head?

namespace StableQueue

variable {Id V : Type} [DecidableEq Id]

def without (id : Id) (xs : List (Item Id V)) : List (Item Id V) := xs.filter fun x => x.id ≠ id

def find (id : Id) (xs : List (Item Id V)) : Option (Item Id V) := xs.find? fun x => x.id = id

def call (xs : List (Item Id V)) : PriorityQueue.Call Id V → List (Item Id V) × Option (Item Id V)
  | .push priority id value _ _ => (xs ++ [⟨priority, id, value⟩], none)
  | .shift => ((front Item.priority xs).elim xs fun x => without x.id xs, front Item.priority xs)
  | .peek => (xs, front Item.priority xs)
  | .remove id => (without id xs, find id xs)
  | .setPriority id priority _ => ((find id xs).elim xs fun x => without id xs ++ [{ x with priority }], none)

end StableQueue

end OpenWifi.Ericstools
