import OpenWifi.Ericstools.Lists
import OpenWifi.Lib.Fuel
import OpenWifi.Lib.Steps
import Mathlib.Data.BitVec
import Mathlib.Data.List.Perm.Subperm

/-!
# The lists of `list.c` as deques

The nodes of a list are the ends of a deque of nodes.  An `unsigned long` has `w` bits, and so has an address.
-/

namespace OpenWifi.Ericstools

open Function (update update_of_ne update_self)
open List Option DoublyLinked

variable {β : Type} {w : ℕ}

namespace ListMemory

variable (h : ListMemory β) (l : ℕ)

/-- `pop_list_node`. -/
def popListNode : Option (ListMemory β × Option ℕ) := do
  let o ← h.lists l
  match o.tail with
  | none => some (h, none)
  | some returnNode =>
    let last ← h.nodes returnNode
    let h ← match last.previous with
      | none => some h
      | some m => h.setNext m none
    let h := h.setList l ⟨o.length - 1, if o.head = some returnNode then none else o.head, last.previous⟩
    let h ← h.setPrevious returnNode none
    let h ← h.setNext returnNode none
    some (h, some returnNode)

/-- The loop of `get_list_values`. -/
def valuesFrom : ℕ → Option ℕ → Option (List β)
  | 0, _ => some []
  | k + 1, currentNode => do
    let c ← currentNode.bind h.nodes
    (valuesFrom k c.next).map (c.value :: ·)

/-- `get_list_values`. -/
def getListValues : Option (List β) := do
  let o ← h.lists l
  h.valuesFrom o.length.toNat o.head

/-- The loop of `list_element_at`; `none` when the fuel runs out. -/
def elementLoop (index : BitVec w) : ℕ → BitVec w → Option ℕ → Option (Option ℕ)
  | 0, _, _ => none
  | fuel + 1, currentIndex, currentNode =>
    if currentIndex = index then some currentNode
    else
      match currentNode with
      | none => some none
      | some n => (h.nodes n).bind fun c =>
        if index < currentIndex then elementLoop index fuel (currentIndex - 1) c.previous
        else elementLoop index fuel (currentIndex + 1) c.next

/-- `list_element_at`.  The unsigned difference is positive for every index but the middle. -/
def listElementAt (index : BitVec w) (fuel : ℕ) : Option (Option β) := do
  let o ← h.lists l
  let currentIndex : BitVec w := .ofInt w (if index - .ofInt w (o.length.tdiv 2) ≠ 0 then o.length - 1 else 0)
  let node ← h.elementLoop index fuel currentIndex (if currentIndex = 0 then o.head else o.tail)
  match node with
  | none => some none
  | some n => (h.nodes n).map fun c => some c.value

end ListMemory

/-! ## Reading -/

open ListMemory

variable {h h' : ListMemory β} {l n : ℕ} {x : ℕ × β} {xs : List (ℕ × β)} {index : BitVec w}

theorem valuesFrom_chain {p : Option ℕ} (chain : Chain h.nodes p xs none) :
    h.valuesFrom xs.length (firstOf xs none) = some (xs.map Prod.snd) := by
  induction xs generalizing p with
  | nil => rfl
  | cons x xs ih =>
    obtain ⟨cell, rest⟩ := chain
    simp [valuesFrom, cell, ih rest]

theorem lastOf_eq (xs : List (ℕ × β)) : lastOf none xs = xs.getLast?.map Prod.fst := by
  rcases eq_nil_or_concat' xs with rfl | ⟨ys, y, rfl⟩ <;> simp

theorem elementLoop_done {current : BitVec w} {node : Option ℕ} (done : current = index ∨ node = none) :
    Returns (fun fuel => h.elementLoop index fuel current node) node := by
  refine Returns.step (.of_forall fun _ => rfl) fun fuel => ?_
  by_cases same : current = index
  · exact if_pos same
  · obtain rfl := done.resolve_left same
    exact if_neg same

namespace IsList

variable (list : IsList h l xs) {i : ℕ}
include list

theorem node_at (here : xs[i]? = some x) :
    h.nodes x.1 = some ⟨xs[i + 1]?.map Prod.fst, (xs.take i).getLast?.map Prod.fst, x.2⟩ := by
  obtain ⟨lt, rfl⟩ := List.getElem?_eq_some_iff.1 here
  have chain := list.chain
  rw [← take_append_drop i xs, drop_eq_getElem_cons lt] at chain
  rw [(chain_append.1 chain).2.1, lastOf_eq, firstOf, or_none, head?_drop]

theorem elementLoop_turn {current : BitVec w} (other : current ≠ index) (here : xs[i]? = some x) (fuel : ℕ) :
    h.elementLoop index (fuel + 1) current (some x.1) =
      if index < current then h.elementLoop index fuel (current - 1) ((xs.take i).getLast?.map Prod.fst)
      else h.elementLoop index fuel (current + 1) (xs[i + 1]?.map Prod.fst) := by
  rw [elementLoop, if_neg other, list.node_at here, bind_some]

/-- The loop walks from the node `i`, towards the index and at most one step behind the end. -/
theorem walk (small : xs.length < 2 ^ w) (k : ℕ) (away : i = index.toNat + k ∧ i < xs.length ∨ i + k = index.toNat) :
    Returns (fun fuel => h.elementLoop index fuel (.ofNat w i) (xs[i]?.map Prod.fst))
      (xs[index.toNat]?.map Prod.fst) := by
  have toNat : (BitVec.ofNat w i).toNat = i := Nat.mod_eq_of_lt (by omega)
  induction k generalizing i with
  | zero =>
    obtain rfl : i = index.toNat := by omega
    exact elementLoop_done (.inl (BitVec.eq_of_toNat_eq toNat))
  | succ k ih =>
    cases here : xs[i]? with
    | none =>
      rw [List.getElem?_eq_none_iff] at here
      rw [List.getElem?_eq_none (by omega)]
      exact elementLoop_done (.inr rfl)
    | some x =>
      rcases away with ⟨behind, lt⟩ | before
      · obtain ⟨j, rfl⟩ : ∃ j, i = j + 1 := ⟨i - 1, by omega⟩
        have later : index < .ofNat w (j + 1) := BitVec.lt_def.2 (by omega)
        refine (ih (i := j) (.inl (by omega)) (Nat.mod_eq_of_lt (by omega))).step fun fuel => ?_
        rw [map_some, list.elementLoop_turn (BitVec.ne_of_lt later).symm here, if_pos later, getLast?_take,
          if_neg (by omega), Nat.add_sub_cancel, List.getElem?_eq_getElem (by omega), some_or, BitVec.ofNat_add]
        exact congrArg (h.elementLoop index fuel · _) (add_sub_cancel_right _ (1 : BitVec w))
      · have earlier : .ofNat w i < index := BitVec.lt_def.2 (by omega)
        refine (ih (i := i + 1) (.inr (by omega)) (Nat.mod_eq_of_lt (by omega))).step fun fuel => ?_
        rw [map_some, list.elementLoop_turn (BitVec.ne_of_lt earlier) here,
          if_neg (BitVec.not_lt.2 (BitVec.le_of_lt earlier)), BitVec.ofNat_add]
        rfl

theorem elementAt (small : xs.length < 2 ^ w) (index : BitVec w) :
    Returns (h.listElementAt l index) (xs[index.toNat]?.map Prod.snd) := by
  have middle : BitVec.ofInt w ((xs.length : ℤ).tdiv 2) = .ofNat w (xs.length / 2) := BitVec.ofInt_natCast ..
  unfold listElementAt
  simp only [list.object, bind_eq_bind, bind_some, middle, sub_ne_zero]
  refine Returns.bind (a := xs[index.toNat]?.map Prod.fst) ?_ (.of_forall fun _ => ?_)
  · by_cases mid : index = .ofNat w (xs.length / 2)
    · have walk := list.walk small (i := 0) index.toNat (.inr (Nat.zero_add _))
      simpa [mid, firstOf, head?_eq_getElem?] using walk
    rw [if_pos mid]
    rcases xs.eq_nil_or_concat' with rfl | ⟨ys, y, rfl⟩
    · simp only [firstOf_nil, lastOf_nil, ite_self]
      exact elementLoop_done (.inr rfl)
    have last : (if BitVec.ofNat w ys.length = 0 then firstOf (ys ++ [y]) none else lastOf none (ys ++ [y])) =
        (ys ++ [y])[ys.length]?.map Prod.fst := by
      split
      next zero =>
        have zero := congrArg BitVec.toNat zero
        rw [BitVec.toNat_ofNat, Nat.mod_eq_of_lt (by simp at small; omega)] at zero
        rw [length_eq_zero_iff.1 (zero.trans (by simp))]
        rfl
      · simp
    rw [show ((ys ++ [y]).length : ℤ) - 1 = (ys.length : ℕ) by simp, BitVec.ofInt_natCast, last]
    rcases Nat.le_total index.toNat ys.length with le | le
    · exact list.walk small (ys.length - index.toNat) (.inl ⟨by omega, by simp⟩)
    · exact list.walk small (index.toNat - ys.length) (.inr (by omega))
  · cases here : xs[index.toNat]? with
    | none => rfl
    | some x => simp [list.node_at here]

end IsList

theorem IsList.pop (list : IsList h l (xs ++ [x])) : ∃ h', h.popListNode l = some (h', some x.1) ∧ IsList h' l xs := by
  obtain ⟨h', removed, rest, -⟩ := list.removeInternal
  have object := list.object
  have node := (chain_append.1 list.chain).2.1
  have same : h.popListNode l = (h.removeInternalListNode (some l) (some x.1)).map (·, some x.1) := by
    rcases eq_nil_or_concat' xs with rfl | ⟨ys, y, rfl⟩
    · simp [popListNode, removeInternalListNode, ListMemory.linkNeighbours, object, node, setPrevious, setNext,
        ListMemory.setNode, setList]
    · have previous := chain_singleton.1 (chain_append.1 (chain_append.1 list.chain).1).2
      have apart := notMem_of_nodup_concat list.nodup
      have other : x.1 ≠ y.1 := fun eq => apart (by simp [eq])
      have first : firstOf ys (some y.1) ≠ some x.1 := by
        cases ys with
        | nil => exact fun eq => other (some.inj eq).symm
        | cons z zs => exact fun eq => apart (by simp [some.inj eq])
      simp [popListNode, removeInternalListNode, ListMemory.linkNeighbours, object, node, previous, other, first,
        setPrevious, setNext, ListMemory.setNode, setList]
  exact ⟨h', by rw [same, removed]; rfl, append_nil xs ▸ rest⟩

/-! ## Calls -/

/-- The calls for the nodes of a list, and `other` for what the program does with other memory: it creates and frees
nodes there, as `push_list` does before and `pop_list` after the call. -/
inductive NodeCall (β : Type)
  | push (n : ℕ)
  | unshift (n : ℕ)
  | pop
  | shift
  | remove (n : ℕ)
  | other (h : ListMemory β)

namespace NodeCall

def run (l : ℕ) (h : ListMemory β) : NodeCall β → Option (ListMemory β × Option ℕ)
  | push n => (h.pushListNode (some l) (some n)).map (·, none)
  | unshift n => (h.unshiftListNode (some l) (some n)).map (·, none)
  | pop => h.popListNode l
  | shift => h.shiftListNode (some l)
  | remove n => (h.removeInternalListNode (some l) (some n)).map (·, none)
  | other h => some (h, none)

/-- The same call of a deque of nodes, with the node that it returns. -/
def deque (ns : List ℕ) : NodeCall β → List ℕ × Option ℕ
  | push n => (ns ++ [n], none)
  | unshift n => (n :: ns, none)
  | pop => (ns.dropLast, ns.getLast?)
  | shift => (ns.tail, ns.head?)
  | remove n => (ns.erase n, none)
  | other _ => (ns, none)

/-- An address stands for two bytes, for which the memory of a node is aligned. -/
def IsAddress (w n : ℕ) : Prop := n ≠ 0 ∧ 2 * n < 2 ^ w
  deriving Decidable

/-- A node that is added is not in the list, and one that is removed is. -/
def Allowed (w l : ℕ) (s : ListMemory β × List ℕ) : NodeCall β → Prop
  | push n | unshift n => (s.1.nodes n).isSome ∧ n ∉ s.2 ∧ IsAddress w n
  | pop | shift => True
  | remove n => n ∈ s.2
  | other h => h.lists l = s.1.lists l ∧ ∀ n ∈ s.2, h.nodes n = s.1.nodes n

instance [DecidableEq β] (s : ListMemory β × List ℕ) (c : NodeCall β) : Decidable (c.Allowed w l s) := by
  cases c <;> dsimp only [Allowed] <;> infer_instance

def step (l : ℕ) (s : ListMemory β × List ℕ) (c : NodeCall β) : Option (ListMemory β × List ℕ) :=
  (c.run l s.1).map fun r => (r.1, (c.deque s.2).1)

variable {c : NodeCall β}

theorem deque_addresses {s : ListMemory β × List ℕ} (allowed : c.Allowed w l s) (addresses : ∀ n ∈ s.2, IsAddress w n) :
    ∀ n ∈ (c.deque s.2).1, IsAddress w n := by
  cases c with
  | push n => exact forall_mem_append.2 ⟨addresses, forall_mem_singleton.2 allowed.2.2⟩
  | unshift n => exact forall_mem_cons.2 ⟨allowed.2.2, addresses⟩
  | pop => exact fun n mem => addresses n (mem_of_mem_dropLast mem)
  | shift => exact fun n mem => addresses n (mem_of_mem_tail mem)
  | remove n => exact fun n mem => addresses n (mem_of_mem_erase mem)
  | other h => exact addresses

theorem length_lt {ns : List ℕ} (nodup : ns.Nodup) (addresses : ∀ n ∈ ns, IsAddress w n) : 2 * ns.length < 2 ^ w := by
  have below : 0 :: ns ⊆ range ((2 ^ w + 1) / 2) := by
    have := Nat.two_pow_pos w
    refine forall_mem_cons.2 ⟨mem_range.2 (by omega), fun n hn => mem_range.2 ?_⟩
    have := (addresses n hn).2
    omega
  have := ((nodup_cons.2 ⟨fun zero => (addresses 0 zero).1 rfl, nodup⟩).subperm below).length_le
  simp at this
  omega

theorem run_step (list : IsList h l xs) (allowed : c.Allowed w l (h, xs.map Prod.fst)) :
    ∃ h' xs', c.run l h = some (h', (c.deque (xs.map Prod.fst)).2) ∧ xs'.map Prod.fst = (c.deque (xs.map Prod.fst)).1 ∧
      IsList h' l xs' := by
  cases c with
  | push n =>
    obtain ⟨c, node⟩ := isSome_iff_exists.1 allowed.1
    obtain ⟨h', pushed, list', -⟩ := list.push node allowed.2.1
    exact ⟨h', _, by rw [run, pushed]; rfl, by simp [deque], list'⟩
  | unshift n =>
    obtain ⟨c, node⟩ := isSome_iff_exists.1 allowed.1
    obtain ⟨h', unshifted, list', -⟩ := list.unshift node allowed.2.1
    exact ⟨h', _, by rw [run, unshifted]; rfl, rfl, list'⟩
  | pop =>
    rcases eq_nil_or_concat' xs with rfl | ⟨ys, y, rfl⟩
    · exact ⟨h, [], by simp [run, deque, popListNode, list.object], rfl, list⟩
    · obtain ⟨h', popped, list'⟩ := list.pop
      exact ⟨h', ys, by simp [run, deque, popped], by simp [deque], list'⟩
  | shift =>
    cases xs with
    | nil => exact ⟨h, [], by simp [run, deque, shiftListNode, list.object], rfl, list⟩
    | cons x xs =>
      obtain ⟨h', shifted, list', -⟩ := list.shift
      exact ⟨h', xs, shifted, rfl, list'⟩
  | remove n =>
    obtain ⟨x, mem, rfl⟩ := mem_map.1 allowed
    obtain ⟨before, after, rfl⟩ := append_of_mem mem
    obtain ⟨h', removed, list', -⟩ := list.removeInternal
    have apart : x.1 ∉ before.map Prod.fst := fun mem =>
      (nodup_append.1 (map_append ▸ list.nodup)).2.2 x.1 mem x.1 mem_cons_self rfl
    exact ⟨h', _, by rw [run, removed]; rfl, by simp [deque, erase_append_right _ apart], list'⟩
  | other h' => exact ⟨h', xs, rfl, rfl, list.congr allowed.1 allowed.2⟩

end NodeCall

def threeNodes : ListMemory ℕ :=
  ((empty.createListNode 2 7).createListNode 4 8).createListNode 6 9

def someCalls : List (NodeCall ℕ) := [.push 2, .unshift 4, .push 6, .remove 2, .pop]

end OpenWifi.Ericstools
