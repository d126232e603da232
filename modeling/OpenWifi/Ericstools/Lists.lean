import OpenWifi.Lib.DoublyLinked
import Mathlib.Algebra.Order.Ring.Int

/-!
# The lists of `list.c`

A list is an object with a length and pointers to its first and its last node, and the nodes are linked in both
directions.  `IsList` says which sequence of nodes a list object holds.
-/

namespace OpenWifi.Ericstools

open Function (update update_of_ne update_self)

open List Option DoublyLinked

/-! ## Operations -/

/-- `list`. -/
structure ListObject where
  length : ℤ
  head : Option ℕ
  tail : Option ℕ
  deriving DecidableEq

/-- The allocated lists and nodes by their addresses; a node is a `list_node`. -/
structure ListMemory (β : Type) where
  lists : ℕ → Option ListObject
  nodes : ℕ → Option (Cell ℕ β)

variable {β : Type}

namespace ListMemory

def empty : ListMemory β := ⟨fun _ => none, fun _ => none⟩

variable (h : ListMemory β) (l : ℕ)

def setList (o : ListObject) : ListMemory β :=
  { h with lists := update h.lists l (some o) }

variable (n : ℕ)

def setNode (c : Cell ℕ β) : ListMemory β :=
  { h with nodes := update h.nodes n (some c) }

/-- `n->next = p`. -/
def setNext (p : Option ℕ) : Option (ListMemory β) :=
  (h.nodes n).map fun c => h.setNode n { c with next := p }

/-- `n->previous = p`. -/
def setPrevious (p : Option ℕ) : Option (ListMemory β) :=
  (h.nodes n).map fun c => h.setNode n { c with previous := p }

/-- `free` of a list object. -/
def freeList : ListMemory β := { h with lists := update h.lists l none }

/-- `free` of a node. -/
def freeNode : ListMemory β := { h with nodes := update h.nodes n none }

/-- `initialize_list`, when `malloc` returns `l`. -/
def initializeList : ListMemory β := h.setList l ⟨0, none, none⟩

/-- `create_list_node`, when `malloc` returns `n`. -/
def createListNode (value : β) : ListMemory β := h.setNode n ⟨none, none, value⟩

/-- `free_list_node` of a node that is not `NULL`: the value is returned. -/
def freeListNode : Option (ListMemory β × β) :=
  (h.nodes n).map fun c => (h.freeNode n, c.value)

/-- `shift_list_node`. -/
def shiftListNode (l : Option ℕ) : Option (ListMemory β × Option ℕ) :=
  match l with
  | none => some (h, none)
  | some l => do
    let o ← h.lists l
    match o.head with
    | none => some (h, none)
    | some returnNode =>
      let first ← h.nodes returnNode
      let h ← match first.next with
        | none => some h
        | some m => h.setPrevious m none
      let h := h.setList l ⟨o.length - 1, first.next, if o.tail = some returnNode then none else o.tail⟩
      let h ← h.setPrevious returnNode none
      let h ← h.setNext returnNode none
      some (h, some returnNode)

/-- `unshift_list_node`. -/
def unshiftListNode (l newNode : Option ℕ) : Option (ListMemory β) :=
  match l, newNode with
  | some l, some n => do
    let o ← h.lists l
    let h ← h.setPrevious n none
    match o.head with
    | none =>
      let h ← h.setNext n none
      some (h.setList l ⟨o.length + 1, some n, some n⟩)
    | some m =>
      let h ← h.setNext n (some m)
      let h ← h.setPrevious m (some n)
      some (h.setList l ⟨o.length + 1, some n, o.tail⟩)
  | _, _ => some h

/-- `push_list_node`. -/
def pushListNode (l newNode : Option ℕ) : Option (ListMemory β) :=
  match l, newNode with
  | some l, some n => do
    let o ← h.lists l
    let h ← h.setNext n none
    match o.tail with
    | none =>
      let h ← h.setPrevious n none
      some (h.setList l ⟨o.length + 1, some n, some n⟩)
    | some m =>
      let h ← h.setPrevious n (some m)
      let h ← h.setNext m (some n)
      some (h.setList l ⟨o.length + 1, o.head, some n⟩)
  | _, _ => some h

/-- The branches of `remove_internal_list_node`: the neighbours are linked, and the ends of the list are changed. -/
def linkNeighbours (o : ListObject) : Option ℕ → Option ℕ → Option (ListMemory β × ListObject)
  | none, none => some (h, { o with head := none, tail := none })
  | none, some next => (h.setPrevious next none).map fun h => (h, { o with head := some next })
  | some previous, none => (h.setNext previous none).map fun h => (h, { o with tail := some previous })
  | some previous, some next => do
    let h ← h.setNext previous (some next)
    let h ← h.setPrevious next (some previous)
    some (h, o)

/-- `remove_internal_list_node`. -/
def removeInternalListNode (l internal : Option ℕ) : Option (ListMemory β) :=
  match l, internal with
  | some l, some n => do
    let o ← h.lists l
    let c ← h.nodes n
    let (h, o) ← h.linkNeighbours o c.previous c.next
    let h ← h.setNext n none
    let h ← h.setPrevious n none
    some (h.setList l { o with length := o.length - 1 })
  | _, _ => some h

/-- The loop of `destroy_list` for a list of the given length; without a node it does not end. -/
def drain (l : ℕ) : ℕ → ListMemory β → Option (ListMemory β)
  | 0, h => some h
  | k + 1, h => do
    let (h, node) ← h.shiftListNode (some l)
    let n ← node
    drain l k (h.freeNode n)

/-- `destroy_list` in the mode that ignores the values. -/
def destroyList : Option (ListMemory β) := do
  let o ← h.lists l
  let h ← drain l o.length.toNat h
  some (h.freeList l)

end ListMemory

/-! ## Specifications -/

/-- The list at `l` holds the nodes `xs` with their values. -/
structure IsList (h : ListMemory β) (l : ℕ) (xs : List (ℕ × β)) : Prop where
  object : h.lists l = some ⟨xs.length, firstOf xs none, lastOf none xs⟩
  chain : Chain h.nodes none xs none
  nodup : (xs.map Prod.fst).Nodup

/-- Only the list at `l` and the nodes in `ns` differ. -/
structure Within (l : ℕ) (ns : List ℕ) (h h' : ListMemory β) : Prop where
  lists : ∀ k, k ≠ l → h'.lists k = h.lists k
  nodes : ∀ n, n ∉ ns → h'.nodes n = h.nodes n

variable {h h' : ListMemory β} {l n : ℕ} {x : ℕ × β} {xs ys : List (ℕ × β)}

theorem IsList.congr (list : IsList h l xs) (object : h'.lists l = h.lists l)
    (nodes : ∀ n ∈ xs.map Prod.fst, h'.nodes n = h.nodes n) : IsList h' l xs :=
  ⟨object.trans list.object, list.chain.congr nodes, list.nodup⟩

namespace ListMemory

@[simp] theorem setList_nodes (o : ListObject) : (h.setList l o).nodes = h.nodes := rfl

@[simp] theorem setNode_nodes (c : Cell ℕ β) : (h.setNode n c).nodes = update h.nodes n (some c) := rfl

theorem setNext_eq {c : Cell ℕ β} (node : h.nodes n = some c) (p : Option ℕ) :
    h.setNext n p = some (h.setNode n { c with next := p }) := by
  rw [setNext, node, map_some]

theorem setPrevious_eq {c : Cell ℕ β} (node : h.nodes n = some c) (p : Option ℕ) :
    h.setPrevious n p = some (h.setNode n { c with previous := p }) := by
  rw [setPrevious, node, map_some]

end ListMemory

open ListMemory

theorem mem_of_lastOf {p : Option ℕ} (xs : List (ℕ × β)) (last : lastOf p xs = some n) (other : p ≠ some n) :
    n ∈ xs.map Prod.fst := by
  induction xs generalizing p with
  | nil => exact absurd last other
  | cons x xs ih =>
    by_cases eq : x.1 = n
    · exact mem_cons.2 (.inl eq.symm)
    · exact mem_cons_of_mem _ (ih last fun h => eq (some.inj h))

theorem notMem_of_nodup_concat {y : ℕ × β} (nodup : ((ys ++ [y]).map Prod.fst).Nodup) : y.1 ∉ ys.map Prod.fst := by
  rw [map_append, nodup_append] at nodup
  exact fun mem => nodup.2.2 _ mem _ mem_cons_self rfl

theorem Within.setList (o : ListObject) (ns : List ℕ) : Within l ns h (h.setList l o) :=
  ⟨fun _ other => update_of_ne other _ _, fun _ _ => rfl⟩

theorem Within.setNode {ns : List ℕ} (mem : n ∈ ns) (c : Cell ℕ β) : Within l ns h (h.setNode n c) :=
  ⟨fun _ _ => rfl, fun _ other => update_of_ne (ne_of_mem_of_not_mem mem other).symm _ _⟩

theorem Within.trans {ns : List ℕ} {h'' : ListMemory β} (w : Within l ns h h') (w' : Within l ns h' h'') :
    Within l ns h h'' :=
  ⟨fun k other => (w'.lists k other).trans (w.lists k other), fun n other => (w'.nodes n other).trans (w.nodes n other)⟩

theorem IsList.setNode (list : IsList h l xs) (other : n ∉ xs.map Prod.fst) (c : Cell ℕ β) :
    IsList (h.setNode n c) l xs :=
  list.congr rfl fun _ mem => update_of_ne (ne_of_mem_of_not_mem mem other) _ _

theorem IsList.freeNode (list : IsList h l xs) (other : n ∉ xs.map Prod.fst) : IsList (h.freeNode n) l xs :=
  list.congr rfl fun _ mem => update_of_ne (ne_of_mem_of_not_mem mem other) _ _

section

variable (list : IsList h l xs) {c : Cell ℕ β} (node : h.nodes n = some c) (fresh : n ∉ xs.map Prod.fst)
include list node fresh

theorem IsList.unshift : ∃ h', h.unshiftListNode (some l) (some n) = some h' ∧ IsList h' l ((n, c.value) :: xs) ∧
      Within l (n :: xs.map Prod.fst) h h' := by
  have object := list.object
  have nodup : (((n, c.value) :: xs).map Prod.fst).Nodup := nodup_cons.2 ⟨fresh, list.nodup⟩
  cases xs with
  | nil =>
    refine ⟨(h.setNode n ⟨none, none, c.value⟩).setList l ⟨1, some n, some n⟩, ?_, ?_, ?_⟩
    · simp [unshiftListNode, object, node, setPrevious, setNext, ListMemory.setNode, ListMemory.setList]
    · exact ⟨update_self .., chain_singleton.2 (update_self ..), nodup⟩
    · exact (Within.setNode mem_cons_self _).trans (Within.setList _ _)
  | cons y ys =>
    have first := list.chain.1
    have other : y.1 ≠ n := fun eq => fresh (eq ▸ mem_cons_self)
    let h₁ := h.setNode n ⟨some y.1, none, c.value⟩
    let h₂ := h₁.setNode y.1 ⟨firstOf ys none, some n, y.2⟩
    have chain : Chain h₂.nodes (some n) (y :: ys) none :=
      (list.setNode fresh _).chain.setPrevious (nodup_cons.1 list.nodup).1 (some n)
    refine ⟨h₂.setList l ⟨((n, c.value) :: y :: ys).length, some n, lastOf (some y.1) ys⟩, ?_, ?_, ?_⟩
    · simp [unshiftListNode, object, node, first, setPrevious, setNext, h₂, h₁, other, ListMemory.setNode,
        ListMemory.setList]
    · refine ⟨update_self .., ⟨?_, chain⟩, nodup⟩
      exact (update_of_ne other.symm _ _).trans (update_self ..)
    · exact ((Within.setNode (by simp) _).trans (Within.setNode (by simp) _)).trans (Within.setList _ _)

theorem IsList.push : ∃ h', h.pushListNode (some l) (some n) = some h' ∧ IsList h' l (xs ++ [(n, c.value)]) ∧
      Within l (n :: xs.map Prod.fst) h h' := by
  have object := list.object
  have nodup : ((xs ++ [(n, c.value)]).map Prod.fst).Nodup := by
    rw [map_append]
    exact list.nodup.append (nodup_singleton n) (by simpa using fresh)
  rcases eq_nil_or_concat' xs with rfl | ⟨ys, y, rfl⟩
  · refine ⟨(h.setNode n ⟨none, none, c.value⟩).setList l ⟨1, some n, some n⟩, ?_, ?_, ?_⟩
    · simp [pushListNode, object, node, setPrevious, setNext, ListMemory.setNode, ListMemory.setList]
    · exact ⟨update_self .., chain_singleton.2 (update_self ..), nodup⟩
    · exact (Within.setNode mem_cons_self _).trans (Within.setList _ _)
  · have last := chain_singleton.1 (chain_append.1 list.chain).2
    have other : y.1 ≠ n := fun eq => fresh (by simp [← eq])
    have apart := notMem_of_nodup_concat list.nodup
    let h₁ := h.setNode n ⟨none, some y.1, c.value⟩
    let h₂ := h₁.setNode y.1 ⟨some n, lastOf none ys, y.2⟩
    have chain : Chain h₂.nodes none (ys ++ [y]) (some n) := (list.setNode fresh _).chain.setNext apart (some n)
    refine ⟨h₂.setList l ⟨((ys ++ [y]).length : ℤ) + 1, firstOf (ys ++ [y]) none, some n⟩, ?_, ?_, ?_⟩
    · simp [pushListNode, object, node, last, setPrevious, setNext, h₂, h₁, other, ListMemory.setNode,
        ListMemory.setList]
    · refine ⟨?_, chain_append.2 ⟨chain, chain_singleton.2 ?_⟩, nodup⟩
      · exact (update_self ..).trans (by simp [add_assoc])
      · simp [h₂, h₁, other.symm]
    · exact ((Within.setNode (by simp) _).trans (Within.setNode (by simp) _)).trans (Within.setList _ _)

end

theorem IsList.linkNeighbours (list : IsList h l (xs ++ x :: ys)) (k : ℤ) :
    ∃ h', h.linkNeighbours ⟨k, firstOf (xs ++ x :: ys) none, lastOf none (xs ++ x :: ys)⟩ (lastOf none xs)
        (firstOf ys none) = some (h', ⟨k, firstOf (xs ++ ys) none, lastOf none (xs ++ ys)⟩) ∧
      Chain h'.nodes none (xs ++ ys) none ∧ h'.nodes x.1 = h.nodes x.1 ∧
      Within l ((xs ++ x :: ys).map Prod.fst) h h' := by
  obtain ⟨before, -, after⟩ := chain_append.1 list.chain
  obtain ⟨nodupXs, nodupYs, apart⟩ := nodup_append.1 (map_append ▸ list.nodup)
  obtain ⟨notYs, nodupYs⟩ := nodup_cons.1 nodupYs
  rcases eq_nil_or_concat' xs with rfl | ⟨zs, z, rfl⟩ <;> rcases ys with _ | ⟨y, ys⟩
  · exact ⟨h, rfl, trivial, rfl, ⟨fun _ _ => rfl, fun _ _ => rfl⟩⟩
  · have other : x.1 ≠ y.1 := fun eq => notYs (eq ▸ mem_cons_self)
    refine ⟨h.setNode y.1 ⟨firstOf ys none, none, y.2⟩, ?_, after.setPrevious (nodup_cons.1 nodupYs).1 none,
      update_of_ne other _ _, Within.setNode (by simp) _⟩
    simp [ListMemory.linkNeighbours, setPrevious_eq after.1]
  · have other : x.1 ≠ z.1 := fun eq => apart z.1 (by simp) x.1 mem_cons_self eq.symm
    have last := chain_singleton.1 (chain_append.1 before).2
    refine ⟨h.setNode z.1 ⟨none, lastOf none zs, z.2⟩, ?_, ?_, update_of_ne other _ _, Within.setNode (by simp) _⟩
    · simp [ListMemory.linkNeighbours, setNext_eq last]
    · simpa using before.setNext (notMem_of_nodup_concat nodupXs) none
  · have otherZ : x.1 ≠ z.1 := fun eq => apart z.1 (by simp) x.1 mem_cons_self eq.symm
    have otherY : x.1 ≠ y.1 := fun eq => notYs (eq ▸ mem_cons_self)
    have other : y.1 ≠ z.1 := fun eq => apart z.1 (by simp) y.1 (by simp) eq.symm
    have last := chain_singleton.1 (chain_append.1 before).2
    let h₁ := h.setNode z.1 ⟨some y.1, lastOf none zs, z.2⟩
    have first : h₁.nodes y.1 = some ⟨firstOf ys none, some x.1, y.2⟩ := (update_of_ne other _ _).trans after.1
    refine ⟨h₁.setNode y.1 ⟨firstOf ys none, some z.1, y.2⟩, ?_, ?_, ?_, ?_⟩
    · simp [ListMemory.linkNeighbours, setNext_eq last, setPrevious_eq first, h₁]
    · refine chain_append.2 ⟨?_, ?_⟩
      · exact (before.setNext (notMem_of_nodup_concat nodupXs) (some y.1)).congr fun n mem =>
          update_of_ne (apart n mem y.1 (by simp)) _ _
      · refine (lastOf_append none zs [z]).symm ▸ (after.congr fun n mem => ?_).setPrevious (nodup_cons.1 nodupYs).1 _
        exact update_of_ne (apart z.1 (by simp) n (mem_cons_of_mem _ mem)).symm _ _
    · exact (update_of_ne otherY _ _).trans (update_of_ne otherZ _ _)
    · exact (Within.setNode (by simp) _).trans (Within.setNode (by simp) _)

theorem IsList.removeInternal (list : IsList h l (xs ++ x :: ys)) :
    ∃ h', h.removeInternalListNode (some l) (some x.1) = some h' ∧ IsList h' l (xs ++ ys) ∧
      h'.nodes x.1 = some ⟨none, none, x.2⟩ ∧ Within l ((xs ++ x :: ys).map Prod.fst) h h' := by
  have object := list.object
  have node := (chain_append.1 list.chain).2.1
  obtain ⟨h₁, linked, chain, same, within⟩ := list.linkNeighbours (xs ++ x :: ys).length
  have nodup : (x.1 :: (xs ++ ys).map Prod.fst).Nodup := (perm_middle.map Prod.fst).nodup_iff.1 list.nodup
  let h₂ := h₁.setNode x.1 ⟨none, none, x.2⟩
  refine ⟨h₂.setList l ⟨(xs ++ ys).length, firstOf (xs ++ ys) none, lastOf none (xs ++ ys)⟩, ?_, ?_, ?_, ?_⟩
  · simp only [removeInternalListNode, object, node, linked, bind_eq_bind, bind_some, setNext_eq (same.trans node)]
    simp [setPrevious, h₂, ListMemory.setNode, ListMemory.setList, ← add_assoc]
  · refine ⟨update_self .., chain.congr fun n mem => ?_, (nodup_cons.1 nodup).2⟩
    exact update_of_ne (ne_of_mem_of_not_mem mem (nodup_cons.1 nodup).1) _ _
  · exact update_self ..
  · exact (within.trans (Within.setNode (by simp) _)).trans (Within.setList _ _)

theorem IsList.shift (list : IsList h l (x :: xs)) :
    ∃ h', h.shiftListNode (some l) = some (h', some x.1) ∧ IsList h' l xs ∧ h'.nodes x.1 = some ⟨none, none, x.2⟩ ∧
      Within l ((x :: xs).map Prod.fst) h h' := by
  obtain ⟨h', removed, rest⟩ := IsList.removeInternal (show IsList h l ([] ++ x :: xs) from list)
  have object := list.object
  have node := list.chain.1
  have same : h.shiftListNode (some l) = (h.removeInternalListNode (some l) (some x.1)).map (·, some x.1) := by
    cases xs with
    | nil =>
      simp [shiftListNode, removeInternalListNode, ListMemory.linkNeighbours, object, node, setPrevious, setNext,
        ListMemory.setNode, ListMemory.setList]
    | cons y ys =>
      have fresh : x.1 ∉ (y :: ys).map Prod.fst := (nodup_cons.1 list.nodup).1
      have other : x.1 ≠ y.1 := fun eq => fresh (eq ▸ mem_cons_self)
      have last : lastOf (some y.1) ys ≠ some x.1 := fun last =>
        fresh (mem_cons_of_mem _ (mem_of_lastOf ys last fun eq => other (some.inj eq).symm))
      simp [shiftListNode, removeInternalListNode, ListMemory.linkNeighbours, object, node, list.chain.2.1, setPrevious,
        setNext, other, last, ListMemory.setNode, ListMemory.setList]
  exact ⟨h', by rw [same, removed]; rfl, rest⟩

theorem IsList.shift_unshift (list : IsList h l (x :: xs)) :
    ∃ h₁ h', h.shiftListNode (some l) = some (h₁, some x.1) ∧ h₁.nodes x.1 = some ⟨none, none, x.2⟩ ∧
      h₁.unshiftListNode (some l) (some x.1) = some h' ∧ IsList h' l (x :: xs) ∧
      Within l ((x :: xs).map Prod.fst) h h' := by
  obtain ⟨h₁, shifted, list₁, node, within⟩ := list.shift
  obtain ⟨h', unshifted, list', within'⟩ := list₁.unshift node (nodup_cons.1 list.nodup).1
  exact ⟨h₁, h', shifted, node, unshifted, list', within.trans within'⟩

theorem IsList.destroy (list : IsList h l []) : h.destroyList l = some (h.freeList l) := by
  rw [destroyList, list.object]
  rfl

theorem isList_initializeList (h : ListMemory β) (l : ℕ) : IsList (h.initializeList l) l [] :=
  ⟨update_self .., trivial, nodup_nil⟩

end OpenWifi.Ericstools
