import OpenWifi.Ericstools.PriorityQueue

/-!
# The priority queue is a stable queue

A `Slot` records the four places in which an element of the queue is kept, and `Represents` says that the slots are what
the maps, the lists and the first element show.
-/

namespace OpenWifi.Ericstools

open List Option PriorityQueue StableQueue
open Function (update update_self update_of_ne update_eq_self update_idem)

section Front

variable {α β : Type} {priority : α → ℕ} {xs : List α} {x : α}

theorem front_eq_head? {m : ℕ} (mem : ∃ y ∈ xs, priority y = m) (least : ∀ y ∈ xs, m ≤ priority y) :
    front priority xs = (xs.filter fun y => priority y = m).head? := by
  obtain ⟨z, memZ, rfl⟩ := mem
  refine congrArg List.head? (filter_congr fun y memY => decide_eq_decide.2 ⟨fun small => ?_, fun eq => ?_⟩)
  · exact le_antisymm (small z memZ) (least y memY)
  · exact eq ▸ least

theorem exists_least (priority : α → ℕ) (ne : xs ≠ []) : ∃ y ∈ xs, ∀ z ∈ xs, priority y ≤ priority z := by
  obtain ⟨y, mem, least⟩ := (measure priority).wf.has_min {y | y ∈ xs} (exists_mem_of_ne_nil xs ne)
  exact ⟨y, mem, fun z memZ => not_lt.1 (least z memZ)⟩

theorem front_spec (eq : front priority xs = some x) :
    x ∈ xs ∧ (∀ y ∈ xs, priority x ≤ priority y) ∧ (xs.filter fun y => priority y = priority x).head? = some x := by
  obtain ⟨mem, least⟩ := mem_filter.1 (mem_of_head? eq)
  have least := of_decide_eq_true least
  exact ⟨mem, least, (front_eq_head? ⟨x, mem, rfl⟩ least).symm.trans eq⟩

theorem front_eq_none : front priority xs = none ↔ xs = [] := by
  refine ⟨fun none => ?_, fun nil => nil ▸ rfl⟩
  by_contra ne
  obtain ⟨y, mem, least⟩ := exists_least priority ne
  exact not_mem_nil (head?_eq_none_iff.1 none ▸ mem_filter.2 ⟨mem, decide_eq_true least⟩)

theorem front_map (f : β → α) (ys : List β) : front priority (ys.map f) = (front (priority ∘ f) ys).map f := by
  simp only [front, List.filter_map, head?_map, List.forall_mem_map]
  rfl

theorem front_concat (xs : List α) (x : α) : front priority (xs ++ [x]) =
    some ((front priority xs).elim x fun y => if priority x < priority y then x else y) := by
  rcases eq : front priority xs with _ | y
  · rw [front_eq_none.1 eq]
    simp [front]
  · obtain ⟨mem, least, head⟩ := front_spec eq
    by_cases smaller : priority x < priority y
    · have least' := forall_mem_append.2 ⟨fun z memZ => (smaller.trans_le (least z memZ)).le,
        forall_mem_singleton.2 le_rfl⟩
      rw [front_eq_head? (m := priority x) ⟨x, by simp, rfl⟩ least', filter_append,
        filter_eq_nil_iff.2 fun z memZ => by simpa using (smaller.trans_le (least z memZ)).ne']
      simp [smaller]
    · have least' := forall_mem_append.2 ⟨least, forall_mem_singleton.2 (not_lt.1 smaller)⟩
      rw [front_eq_head? (m := priority y) ⟨y, by simp [mem], rfl⟩ least', filter_append, head?_append, head]
      simp [smaller]

theorem front_take {a b : List α} {y : α} (eq : front priority (a ++ y :: b) = some x) (ne : x ≠ y) :
    front priority (a ++ b) = some x := by
  obtain ⟨mem, least, head⟩ := front_spec eq
  have mem' : x ∈ a ++ b := by simpa [ne] using mem
  rw [front_eq_head? ⟨x, mem', rfl⟩ fun z memZ => least z (by grind)]
  rw [filter_append, head?_append] at head ⊢
  generalize a.filter (fun z => priority z = priority x) = earlier at head ⊢
  rcases earlier with _ | ⟨z, zs⟩
  · by_cases same : priority y = priority x
    · rw [filter_cons_of_pos (by simpa using same)] at head
      exact absurd (some.inj head).symm ne
    · rwa [filter_cons_of_neg (by simpa using same)] at head
  · exact head

end Front

structure Slot (Id V : Type) where
  item : ℕ
  node : ℕ
  idNode : ℕ
  content : Item Id V

namespace Slot

variable {Id V : Type}

def priority (s : Slot Id V) : ℕ := s.content.priority

def id (s : Slot Id V) : Id := s.content.id

def link (s : Slot Id V) : ℕ × ℕ := (s.node, s.item)

end Slot

section Lists

variable {Id V : Type} {h h' : ListMemory ℕ} {listAt : ℕ → ℕ} {slots slots' a b : List (Slot Id V)} {s : Slot Id V}
  {p l : ℕ}

def group (p : ℕ) (slots : List (Slot Id V)) : List (Slot Id V) := slots.filter fun s => s.priority = p

@[simp] theorem group_append (p : ℕ) (a b : List (Slot Id V)) : group p (a ++ b) = group p a ++ group p b :=
  filter_append ..

theorem group_cons_self (s : Slot Id V) (b : List (Slot Id V)) : group s.priority (s :: b) = s :: group s.priority b :=
  filter_cons_of_pos (decide_eq_true rfl)

theorem group_cons_of_ne (ne : p ≠ s.priority) (b : List (Slot Id V)) : group p (s :: b) = group p b :=
  filter_cons_of_neg (by simpa using ne.symm)

theorem mem_group : s ∈ group p slots ↔ s ∈ slots ∧ s.priority = p := by
  simp [group]

theorem group_ne_nil (mem : s ∈ slots) : group s.priority slots ≠ [] :=
  ne_nil_of_mem (mem_group.2 ⟨mem, rfl⟩)

structure Listed (h : ListMemory ℕ) (listAt : ℕ → ℕ) (slots : List (Slot Id V)) : Prop where
  nodup : (slots.map Slot.node).Nodup
  list : ∀ p, group p slots ≠ [] → IsList h (listAt p) ((group p slots).map Slot.link)
  apart : ∀ p p', group p slots ≠ [] → group p' slots ≠ [] → listAt p = listAt p' → p = p'

theorem map_fst_link (slots : List (Slot Id V)) : (slots.map Slot.link).map Prod.fst = slots.map Slot.node :=
  map_map

theorem Listed.node (listed : Listed h listAt slots) (mem : s ∈ slots) : h.nodes s.node ≠ none := by
  obtain ⟨c, node⟩ := (listed.list s.priority (group_ne_nil mem)).chain.cell
    (map_fst_link _ ▸ mem_map_of_mem (mem_group.2 ⟨mem, rfl⟩))
  rw [node]
  exact nofun

theorem Listed.object (listed : Listed h listAt slots) (used : group p slots ≠ []) : h.lists (listAt p) ≠ none := by
  rw [(listed.list p used).object]
  exact nofun

structure Spares (p : ℕ) (listAt : ℕ → ℕ) (slots : List (Slot Id V)) (h h' : ListMemory ℕ) : Prop where
  lists : ∀ k, h.lists k ≠ none → (group p slots ≠ [] → k ≠ listAt p) → h'.lists k = h.lists k
  nodes : ∀ n, h.nodes n ≠ none → n ∉ (group p slots).map Slot.node → h'.nodes n = h.nodes n

theorem Listed.change (listed : Listed h listAt slots) (spares : Spares p listAt slots h h')
    (others : ∀ p', p' ≠ p → group p' slots' = group p' slots) (nodup : (slots'.map Slot.node).Nodup)
    (own : group p slots' ≠ [] → IsList h' l ((group p slots').map Slot.link))
    (fresh : ∀ p', p' ≠ p → group p' slots ≠ [] → listAt p' ≠ l) : Listed h' (update listAt p l) slots' := by
  refine ⟨nodup, fun p' used => ?_, fun p₁ p₂ used₁ used₂ same => ?_⟩
  · by_cases eq : p' = p
    · rw [eq, update_self]
      exact own (eq ▸ used)
    · rw [others p' eq] at used
      rw [update_of_ne eq, others p' eq]
      refine (listed.list p' used).congr (spares.lists _ (listed.object used) ?_) fun n mem => ?_
      · exact fun used' same => eq (listed.apart _ _ used used' same)
      · obtain ⟨s, inGroup, rfl⟩ := mem_map.1 (map_fst_link _ ▸ mem)
        obtain ⟨memS, rfl⟩ := mem_group.1 inGroup
        refine spares.nodes _ (listed.node memS) fun mem' => ?_
        obtain ⟨s', inGroup', same⟩ := mem_map.1 mem'
        obtain ⟨memS', rfl⟩ := mem_group.1 inGroup'
        exact eq (congrArg Slot.priority (inj_on_of_nodup_map listed.nodup memS memS' same.symm))
  · by_cases eq₁ : p₁ = p <;> by_cases eq₂ : p₂ = p
    · exact eq₁.trans eq₂.symm
    · rw [eq₁, update_self, update_of_ne eq₂] at same
      exact absurd same.symm (fresh p₂ eq₂ (others p₂ eq₂ ▸ used₂))
    · rw [eq₂, update_self, update_of_ne eq₁] at same
      exact absurd same (fresh p₁ eq₁ (others p₁ eq₁ ▸ used₁))
    · rw [update_of_ne eq₁, update_of_ne eq₂] at same
      exact listed.apart _ _ (others p₁ eq₁ ▸ used₁) (others p₂ eq₂ ▸ used₂) same

theorem exists_push_singleton (h : ListMemory ℕ) (s : Slot Id V) (l : ℕ) :
    ∃ h', ((h.createListNode s.node s.item).initializeList l).pushListNode (some l) (some s.node) = some h' ∧
      IsList h' l [s.link] ∧ (∀ k, k ≠ l → h'.lists k = h.lists k) ∧ ∀ n, n ≠ s.node → h'.nodes n = h.nodes n := by
  obtain ⟨h', pushed, list, within⟩ := (isList_initializeList (h.createListNode s.node s.item) l).push
    (n := s.node) (update_self ..) not_mem_nil
  refine ⟨h', pushed, list, fun k other => ?_, fun n other => ?_⟩
  · exact (within.lists k other).trans (update_of_ne other _ _)
  · exact (within.nodes n (by simpa using other)).trans (update_of_ne other _ _)

theorem nodup_map_concat {f : Slot Id V → ℕ} (nodup : (slots.map f).Nodup) (ne : ∀ s' ∈ slots, f s' ≠ f s) :
    ((slots ++ [s]).map f).Nodup := by
  rw [map_append]
  refine nodup.append (nodup_singleton _) fun n mem mem' => ?_
  obtain ⟨s', memS', rfl⟩ := mem_map.1 mem
  exact ne s' memS' (mem_singleton.1 mem')

theorem Listed.nodup_concat (listed : Listed h listAt slots) (freshNode : h.nodes s.node = none) :
    ((slots ++ [s]).map Slot.node).Nodup :=
  nodup_map_concat listed.nodup fun _ mem eq => listed.node mem (eq ▸ freshNode)

theorem group_concat_of_ne (ne : p ≠ s.priority) (slots : List (Slot Id V)) :
    group p (slots ++ [s]) = group p slots := by
  rw [group_append, group_cons_of_ne ne]
  exact append_nil _

theorem group_concat_self (slots : List (Slot Id V)) (s : Slot Id V) :
    group s.priority (slots ++ [s]) = group s.priority slots ++ [s] := by
  rw [group_append, group_cons_self]
  rfl

section

variable (listed : Listed h listAt slots) (freshNode : h.nodes s.node = none)
    (freshList : h.lists l = none) (list : IsList h' l [s.link])
    (lists : ∀ k, k ≠ l → h'.lists k = h.lists k) (nodes : ∀ n, n ≠ s.node → h'.nodes n = h.nodes n)
include listed freshNode freshList list lists nodes

theorem Listed.push_new (empty : group s.priority slots = []) :
    Listed h' (update listAt s.priority l) (slots ++ [s]) := by
  refine listed.change (p := s.priority) ⟨fun k used _ => lists k fun eq => used (eq ▸ freshList), fun n used _ => ?_⟩
    (fun p' ne => group_concat_of_ne ne slots) (listed.nodup_concat freshNode) (fun _ => ?_) fun p' _ used eq => ?_
  · exact nodes n fun eq => used (eq ▸ freshNode)
  · rw [group_concat_self, empty]
    exact list
  · exact listed.object used (eq ▸ freshList)

theorem Listed.push_old (used : group s.priority slots ≠ []) :
    ∃ h'', h'.pushListNode (some (listAt s.priority)) (some s.node) = some h'' ∧
      Listed (h''.freeList l) listAt (slots ++ [s]) := by
  have apart : s.node ∉ ((group s.priority slots).map Slot.link).map Prod.fst := fun mem => by
    obtain ⟨c, node⟩ := (listed.list _ used).chain.cell mem
    exact nomatch freshNode.symm.trans node
  have old : IsList h' (listAt s.priority) ((group s.priority slots).map Slot.link) :=
    (listed.list _ used).congr (lists _ fun eq => listed.object used (eq ▸ freshList)) fun n mem =>
      nodes n (ne_of_mem_of_not_mem mem apart)
  obtain ⟨h'', pushed, list', within⟩ := old.push list.chain.1 apart
  refine ⟨h'', pushed, ?_⟩
  have other : ∀ {p'}, group p' slots ≠ [] → listAt p' ≠ l := fun used' eq => listed.object used' (eq ▸ freshList)
  rw [← update_eq_self s.priority listAt]
  refine listed.change (p := s.priority) ⟨fun k inUse ne => ?_, fun n inUse ne => ?_⟩
    (fun p' ne => group_concat_of_ne ne slots) (listed.nodup_concat freshNode) (fun _ => ?_)
    fun p' ne used' eq => ne (listed.apart _ _ used' used eq)
  · have ne' : k ≠ l := fun eq => inUse (eq ▸ freshList)
    exact (update_of_ne ne' _ _).trans ((within.lists k (ne used)).trans (lists k ne'))
  · have ne' : n ≠ s.node := fun eq => inUse (eq ▸ freshNode)
    refine (within.nodes n ?_).trans (nodes n ne')
    rw [map_fst_link]
    exact fun mem => (mem_cons.1 mem).elim ne' ne
  · rw [group_concat_self, map_append]
    exact list'.congr (update_of_ne (other used) _ _) fun _ _ => rfl

end

theorem Listed.notMem_take (listed : Listed h listAt (a ++ s :: b)) :
    s.node ∉ ((group s.priority (a ++ b)).map Slot.link).map Prod.fst := by
  have nodup : ((s :: (a ++ b)).map Slot.node).Nodup := (perm_middle.map Slot.node).nodup_iff.1 listed.nodup
  rw [map_fst_link]
  exact fun mem => (nodup_cons.1 nodup).1 ((filter_sublist.map _).subset mem)

theorem Listed.take (listed : Listed h listAt (a ++ s :: b))
    (list : IsList h' (listAt s.priority) ((group s.priority (a ++ b)).map Slot.link))
    (within : Within (listAt s.priority) (((group s.priority (a ++ s :: b)).map Slot.link).map Prod.fst) h h') :
    Listed (h'.freeNode s.node) listAt (a ++ b) := by
  have nodup := listed.nodup.sublist (((sublist_cons_self s b).append_left a).map Slot.node)
  have used : group s.priority (a ++ s :: b) ≠ [] := group_ne_nil (by simp)
  have inGroup : s.node ∈ (group s.priority (a ++ s :: b)).map Slot.node := mem_map_of_mem (mem_group.2 ⟨by simp, rfl⟩)
  rw [← update_eq_self s.priority listAt]
  refine listed.change (p := s.priority) ⟨fun k _ ne => within.lists k (ne used), fun n _ ne => ?_⟩ (fun p' ne => ?_)
    nodup (fun _ => list.freeNode listed.notMem_take)
    fun p' ne used' eq => ne (listed.apart _ _ used' used eq)
  · exact (update_of_ne (ne_of_mem_of_not_mem inGroup ne).symm _ _).trans
      (within.nodes n (by rwa [map_fst_link]))
  · rw [group_append, group_append, group_cons_of_ne ne]

theorem Listed.freeList (listed : Listed h listAt slots) (apart : ∀ p', group p' slots ≠ [] → listAt p' ≠ l) :
    Listed (h.freeList l) listAt slots :=
  ⟨listed.nodup, fun p' used => (listed.list p' used).congr (update_of_ne (apart p' used) _ _) fun _ _ => rfl,
    listed.apart⟩

theorem Listed.headValue (listed : Listed h listAt slots) (used : group p slots ≠ [])
    (least : ∀ s ∈ slots, p ≤ s.priority) :
    ∃ h', headValue h (some (listAt p)) = some (h', (front Slot.priority slots).map Slot.item) ∧
    Listed h' listAt slots := by
  rcases split : group p slots with _ | ⟨s, rest⟩
  · exact absurd split used
  obtain ⟨mem, rfl⟩ := mem_group.1 (split ▸ mem_cons_self : s ∈ group p slots)
  have head : front Slot.priority slots = some s := by
    rw [front_eq_head? ⟨s, mem, rfl⟩ least, ← group, split]
    rfl
  have list := listed.list _ used
  rw [split, map_cons] at list
  obtain ⟨h₁, h', shifted, node, unshifted, list', within⟩ := list.shift_unshift
  refine ⟨h', ?_, ?_⟩
  · simp only [Ericstools.headValue, shifted, head, node, unshifted, bind_eq_bind, bind_some]
    rfl
  · rw [← update_eq_self s.priority listAt]
    refine listed.change (p := s.priority) ⟨fun k _ ne => within.lists k (ne used), fun n _ ne => within.nodes n ?_⟩
      (fun _ _ => rfl) listed.nodup (fun _ => ?_) fun p' ne used' eq => ne (listed.apart _ _ used' used eq)
    · rwa [← map_cons, ← split, map_fst_link]
    · rw [split]
      exact list'

end Lists

section Maps

variable {Id V : Type} {listAt : ℕ → ℕ} {slots a b : List (Slot Id V)} {s : Slot Id V} {p l : ℕ}

def byPriority (listAt : ℕ → ℕ) (slots : List (Slot Id V)) : Contents ℕ ℕ :=
  fun p => if group p slots = [] then none else some (some (listAt p))

def byHash (hash : Id → ℕ) (slots : List (Slot Id V)) : Contents ℕ ℕ :=
  fun k => (slots.find? fun s => hash s.id = k).map fun s => some s.idNode

theorem byPriority_of_used (used : group p slots ≠ []) :
    byPriority listAt slots p = some (some (listAt p)) := if_neg used

theorem byPriority_concat (listAt : ℕ → ℕ) (slots : List (Slot Id V)) (s : Slot Id V) (l : ℕ) :
    byPriority (update listAt s.priority l) (slots ++ [s]) =
      update (byPriority listAt slots) s.priority (some (some l)) := by
  funext p
  by_cases eq : p = s.priority
  · rw [eq, update_self, byPriority_of_used (group_ne_nil (by simp)), update_self]
  · rw [update_of_ne eq, byPriority, byPriority, group_concat_of_ne eq, update_of_ne eq]

theorem byPriority_take_last (listAt : ℕ → ℕ) (empty : group s.priority (a ++ b) = []) :
    byPriority listAt (a ++ b) = update (byPriority listAt (a ++ s :: b)) s.priority none := by
  funext p
  by_cases eq : p = s.priority
  · rw [eq, update_self, byPriority, if_pos empty]
  · rw [update_of_ne eq, byPriority, byPriority, group_append, group_append, group_cons_of_ne eq]

theorem byPriority_take (listAt : ℕ → ℕ) (used : group s.priority (a ++ b) ≠ []) :
    byPriority listAt (a ++ b) = byPriority listAt (a ++ s :: b) := by
  funext p
  by_cases eq : p = s.priority
  · rw [eq, byPriority_of_used used, byPriority_of_used (group_ne_nil (by simp))]
  · rw [byPriority, byPriority, group_append, group_append, group_cons_of_ne eq]

variable {hash : Id → ℕ}

theorem byHash_concat (fresh : ∀ s' ∈ slots, hash s'.id ≠ hash s.id) :
    byHash hash (slots ++ [s]) = update (byHash hash slots) (hash s.id) (some (some s.idNode)) := by
  funext k
  rw [byHash, find?_append]
  by_cases eq : k = hash s.id
  · rw [eq, update_self, find?_eq_none.2 fun s' mem => by simpa using fresh s' mem]
    simp
  · rw [update_of_ne eq, byHash]
    simp [Ne.symm eq]

theorem byHash_eq_none {k : ℕ} (fresh : ∀ s ∈ slots, hash s.id ≠ k) : byHash hash slots k = none := by
  rw [byHash, map_eq_none_iff, find?_eq_none]
  exact fun s mem => by simpa using fresh s mem

theorem byHash_eq_some (nodup : (slots.map fun s => hash s.id).Nodup) (mem : s ∈ slots) :
    byHash hash slots (hash s.id) = some (some s.idNode) := by
  rcases found : slots.find? fun s' => hash s'.id = hash s.id with _ | s'
  · exact absurd (find?_eq_none.1 found s mem) (by simp)
  · have same : hash s'.id = hash s.id := by simpa using find?_some found
    have : s' = s := inj_on_of_nodup_map nodup (mem_of_find?_eq_some found) mem same
    rw [byHash, found, this]
    rfl

theorem byHash_take (nodup : ((a ++ s :: b).map fun s => hash s.id).Nodup) :
    byHash hash (a ++ b) = update (byHash hash (a ++ s :: b)) (hash s.id) none := by
  have nodup' : ((s :: (a ++ b)).map fun s => hash s.id).Nodup := (perm_middle.map _).nodup_iff.1 nodup
  funext k
  by_cases eq : k = hash s.id
  · rw [eq, update_self]
    exact byHash_eq_none fun s' mem same => (nodup_cons.1 nodup').1 (mem_map.2 ⟨s', mem, same⟩)
  · rw [update_of_ne eq, byHash, byHash, find?_append, find?_append, find?_cons_of_neg (by simpa using Ne.symm eq)]

end Maps

section Queue

variable {Id V : Type} {hash : Id → ℕ} {q : PriorityQueue Id V} {slots a b : List (Slot Id V)} {s : Slot Id V}
  {listAt : ℕ → ℕ} {new : Addresses}

structure Represents (hash : Id → ℕ) (q : PriorityQueue Id V) (slots : List (Slot Id V)) (listAt : ℕ → ℕ) : Prop where
  listed : Listed q.lists listAt slots
  priorities : q.priorities.Holds (byPriority listAt slots)
  ids : q.ids.Holds (byHash hash slots)
  hashes : (slots.map fun s => hash s.id).Nodup
  idNodes : ∀ s ∈ slots, q.idNodes s.idNode = some ⟨listAt s.priority, s.node⟩
  idNodup : (slots.map Slot.idNode).Nodup
  items : ∀ s ∈ slots, q.items s.item = some s.content
  itemNodup : (slots.map Slot.item).Nodup
  first : q.first = (front Slot.priority slots).map Slot.item
  length : q.length = slots.length

theorem represents_initialize (hash : Id → ℕ) :
    Represents hash (initializePriorityQueue : PriorityQueue Id V) [] fun _ => 0 where
  listed := ⟨nodup_nil, fun _ used => absurd rfl used, fun _ _ used => absurd rfl used⟩
  priorities := LongMap.holds_initialize
  ids := LongMap.holds_initialize
  hashes := nodup_nil
  idNodes := nofun
  idNodup := nodup_nil
  items := nofun
  itemNodup := nodup_nil
  first := rfl
  length := rfl

/-- What `malloc` returned for a list node, a list and an id node was not in use. -/
structure Addresses.Unused (new : Addresses) (q : PriorityQueue Id V) : Prop where
  node : q.lists.nodes new.node = none
  list : q.lists.lists new.list = none
  idNode : q.idNodes new.idNode = none

theorem Represents.enqueue (rep : Represents hash q slots listAt) (unused : new.Unused q) (node : s.node = new.node) :
    ∃ priorities lists l, q.enqueue s.item s.priority new = some (priorities, lists, l) ∧
      priorities.Holds (byPriority (update listAt s.priority l) (slots ++ [s])) ∧
      Listed lists (update listAt s.priority l) (slots ++ [s]) ∧
      ∀ s' ∈ slots, update listAt s.priority l s'.priority = listAt s'.priority := by
  obtain ⟨h, pushed, list, lists, nodes⟩ := exists_push_singleton q.lists s new.list
  obtain ⟨map, set, holds⟩ := rep.priorities.set s.priority (some new.list)
  have freshNode : q.lists.nodes s.node = none := node ▸ unused.node
  rw [node] at pushed
  by_cases empty : group s.priority slots = []
  · refine ⟨map, h, new.list, ?_, byPriority_concat listAt slots s _ ▸ holds,
      rep.listed.push_new freshNode unused.list list lists nodes empty, fun s' mem => ?_⟩
    · simp [PriorityQueue.enqueue, pushed, set, byPriority, if_pos empty]
    · exact update_of_ne (fun eq : s'.priority = s.priority => group_ne_nil mem (eq ▸ empty)) _ _
  · obtain ⟨h', pushed', listed⟩ := rep.listed.push_old freshNode unused.list list lists nodes empty
    obtain ⟨map', set', holds'⟩ := holds.set s.priority (some (listAt s.priority))
    rw [node] at pushed'
    refine ⟨map', h'.freeList new.list, listAt s.priority, ?_, ?_, ?_, fun s' _ => ?_⟩
    · simp [PriorityQueue.enqueue, pushed, set, byPriority_of_used empty, pushed', set']
    · rw [update_idem] at holds'
      rwa [byPriority_concat]
    · rwa [update_eq_self]
    · rw [update_eq_self]

theorem Represents.firstAfterPush (rep : Represents hash q slots listAt) (s : Slot Id V) :
    q.firstAfterPush s.item s.priority = some
      ((front Slot.priority slots).elim s fun y => if s.priority < y.priority then s else y).item := by
  rw [PriorityQueue.firstAfterPush, rep.first]
  rcases eq : front Slot.priority slots with _ | f
  · rfl
  · simp only [map_some, rep.items f (front_spec eq).1, elim_some]
    exact congrArg some (apply_ite Slot.item (s.priority < f.priority) s f).symm

theorem Represents.pushNode (rep : Represents hash q slots listAt) (item : q.items s.item = some s.content)
    (apart : ∀ s' ∈ slots, s'.item ≠ s.item) (fresh : ∀ s' ∈ slots, hash s'.id ≠ hash s.id) (unused : new.Unused q)
    (node : s.node = new.node) (idNode : s.idNode = new.idNode) :
    ∃ q' listAt', q.pushPriorityQueueNode hash s.item new = some q' ∧ Represents hash q' (slots ++ [s]) listAt' := by
  obtain ⟨priorities, lists, l, enqueued, holds, listed, same⟩ := rep.enqueue unused node
  obtain ⟨ids, set, holdsIds⟩ := rep.ids.set (hash s.id) (some new.idNode)
  let q' : PriorityQueue Id V := { q with
    priorities, ids, lists
    first := (front Slot.priority (slots ++ [s])).map Slot.item
    length := q.length + 1
    idNodes := update q.idNodes new.idNode (some ⟨l, new.node⟩) }
  have run : q.pushPriorityQueueNode hash s.item new = some q' := by
    have first := rep.firstAfterPush s
    unfold Slot.priority at enqueued first
    unfold Slot.id at set
    simp only [pushPriorityQueueNode, item, enqueued, first, set, bind_eq_bind, bind_some, q',
      front_concat]
    rfl
  have neId : ∀ s' ∈ slots, s'.idNode ≠ new.idNode := fun s' mem eq =>
    some_ne_none _ ((rep.idNodes s' mem).symm.trans (eq ▸ unused.idNode))
  refine ⟨q', update listAt s.priority l, run, {
    listed, priorities := holds
    ids := by
      rw [byHash_concat fresh, idNode]
      exact holdsIds
    hashes := nodup_map_concat rep.hashes fresh
    idNodes := forall_mem_append.2 ⟨fun s' mem => ?_, forall_mem_singleton.2 ?_⟩
    idNodup := nodup_map_concat rep.idNodup (idNode ▸ neId)
    items := forall_mem_append.2 ⟨rep.items, forall_mem_singleton.2 item⟩
    itemNodup := nodup_map_concat rep.itemNodup apart
    first := rfl
    length := by simp [q', rep.length] }⟩
  · rw [same s' mem]
    exact (update_of_ne (neId s' mem) _ _).trans (rep.idNodes s' mem)
  · rw [update_self, idNode, node]
    exact update_self ..

theorem Represents.take (rep : Represents hash q (a ++ s :: b) listAt) {priorities ids : LongMap ℕ ℕ}
    {lists : ListMemory ℕ} (listed : Listed lists listAt (a ++ b))
    (holds : priorities.Holds (byPriority listAt (a ++ b)))
    (holdsIds : ids.Holds (update (byHash hash (a ++ s :: b)) (hash s.id) none)) : Represents hash { q with
      priorities, ids, lists
      first := (front Slot.priority (a ++ b)).map Slot.item
      length := q.length - 1
      idNodes := update q.idNodes s.idNode none } (a ++ b) listAt := by
  have sub : (a ++ b).Sublist (a ++ s :: b) := (sublist_cons_self s b).append_left a
  have idNodup : ((s :: (a ++ b)).map Slot.idNode).Nodup := (perm_middle.map _).nodup_iff.1 rep.idNodup
  exact {
    listed, priorities := holds
    ids := byHash_take rep.hashes ▸ holdsIds
    hashes := rep.hashes.sublist (sub.map _)
    idNodes := fun s' mem => by
      have ne : s'.idNode ≠ s.idNode := fun eq => (nodup_cons.1 idNodup).1 (eq ▸ mem_map_of_mem mem)
      exact (update_of_ne ne _ _).trans (rep.idNodes s' (sub.subset mem))
    idNodup := rep.idNodup.sublist (sub.map _)
    items := fun s' mem => rep.items s' (sub.subset mem)
    itemNodup := rep.itemNodup.sublist (sub.map _)
    first := rfl
    length := by simp [rep.length]; omega }

variable {priorities : LongMap ℕ ℕ} {h : ListMemory ℕ}

theorem exists_headValue (listed : Listed h listAt slots) (holds : priorities.Holds (byPriority listAt slots)) :
    ∃ h', headValue h (priorities.getSmallest 0).1 = some (h', (front Slot.priority slots).map Slot.item) ∧
      Listed h' listAt slots := by
  rcases holds.getEnd_eq .left 0 with ⟨unused, eq⟩ | ⟨p, ⟨used, least⟩, eq⟩
  · obtain rfl : slots = [] := eq_nil_iff_forall_not_mem.2 fun s mem =>
      some_ne_none _ ((byPriority_of_used (group_ne_nil mem)).symm.trans (unused s.priority))
    exact ⟨h, by rw [LongMap.getSmallest, eq]; rfl, listed⟩
  · have used : group p slots ≠ [] := fun nil => used (if_pos nil)
    rw [LongMap.getSmallest, eq, byPriority_of_used used]
    refine listed.headValue used fun s mem => least ?_
    exact fun eq => some_ne_none _ ((byPriority_of_used (group_ne_nil mem)).symm.trans eq)

theorem Represents.front_iff (rep : Represents hash q slots listAt) (mem : s ∈ slots) :
    some s.item = q.first ↔ front Slot.priority slots = some s := by
  rw [rep.first]
  rcases eq : front Slot.priority slots with _ | f
  · exact ⟨nofun, nofun⟩
  · refine ⟨fun same => congrArg some ?_, fun same => congrArg (Option.map Slot.item) same.symm⟩
    exact inj_on_of_nodup_map rep.itemNodup (front_spec eq).1 mem (some.inj same).symm

theorem Represents.firstAfterRemoval (rep : Represents hash q (a ++ s :: b) listAt)
    (listed : Listed h listAt (a ++ b)) (holds : priorities.Holds (byPriority listAt (a ++ b))) :
    ∃ h', q.firstAfterRemoval priorities h s.item = some (h', (front Slot.priority (a ++ b)).map Slot.item) ∧
      Listed h' listAt (a ++ b) := by
  by_cases own : some s.item = q.first
  · rw [PriorityQueue.firstAfterRemoval, if_pos own]
    exact exists_headValue listed holds
  · refine ⟨h, ?_, listed⟩
    rw [PriorityQueue.firstAfterRemoval, if_neg own, rep.first]
    rcases eq : front Slot.priority (a ++ s :: b) with _ | f
    · exact absurd (front_eq_none.1 eq) (by simp)
    · rw [front_take eq]
      rintro rfl
      exact own ((rep.front_iff (by simp)).2 eq)

theorem links_middle (a b : List (Slot Id V)) (s : Slot Id V) : (group s.priority (a ++ s :: b)).map Slot.link =
    (group s.priority a).map Slot.link ++ s.link :: (group s.priority b).map Slot.link := by
  rw [group_append, group_cons_self, map_append, map_cons]

theorem Listed.listAt_ne (listed : Listed h listAt (a ++ s :: b)) (empty : group s.priority (a ++ b) = [])
    {p : ℕ} (used : group p (a ++ b) ≠ []) : listAt p ≠ listAt s.priority := by
  have ne : p ≠ s.priority := fun eq => used (eq ▸ empty)
  refine fun same => ne (listed.apart _ _ ?_ (group_ne_nil (by simp)) same)
  rwa [group_append, group_cons_of_ne ne, ← group_append]

theorem Represents.dropIfEmpty (rep : Represents hash q (a ++ s :: b) listAt)
    (list : IsList h (listAt s.priority) ((group s.priority (a ++ b)).map Slot.link))
    (listed : Listed h listAt (a ++ b)) :
    ∃ priorities h', q.dropIfEmpty h (listAt s.priority) s.item = some (priorities, h') ∧
      priorities.Holds (byPriority listAt (a ++ b)) ∧ Listed h' listAt (a ++ b) := by
  have object := list.object
  by_cases empty : group s.priority (a ++ b) = []
  · obtain ⟨priorities, removed, holds⟩ := rep.priorities.remove s.priority
    rw [empty] at list object
    refine ⟨priorities, h.freeList (listAt s.priority), ?_, byPriority_take_last listAt empty ▸ holds,
      listed.freeList fun p used => rep.listed.listAt_ne empty used⟩
    unfold Slot.priority at *
    simp only [PriorityQueue.dropIfEmpty, object, rep.items s (by simp), removed, list.destroy, bind_eq_bind, bind_some]
    rfl
  · refine ⟨q.priorities, h, ?_, byPriority_take listAt empty ▸ rep.priorities, listed⟩
    simp [PriorityQueue.dropIfEmpty, object, -group_append, empty]

theorem Represents.removeNode (rep : Represents hash q (a ++ s :: b) listAt) :
    ∃ q', q.removePriorityQueueNodeWithId hash s.id = some (q', some s.item) ∧ Represents hash q' (a ++ b) listAt ∧
      q'.items = q.items := by
  have mem : s ∈ a ++ s :: b := by simp
  obtain ⟨ids, removed, holdsIds⟩ := rep.ids.remove (hash s.id)
  rw [byHash_eq_some rep.hashes mem, join_some] at removed
  have list := rep.listed.list s.priority (group_ne_nil mem)
  rw [links_middle] at list
  obtain ⟨h₁, unlinked, list₁, node, within⟩ := list.removeInternal
  rw [← map_append, ← group_append] at list₁
  rw [← links_middle] at within
  have freed : h₁.freeListNode s.node = some (h₁.freeNode s.node, s.item) := by
    rw [ListMemory.freeListNode, show h₁.nodes s.node = _ from node]
    rfl
  have listed₁ := rep.listed.take list₁ within
  obtain ⟨priorities, h₂, dropped, holds, listed₂⟩ := rep.dropIfEmpty (list₁.freeNode rep.listed.notMem_take) listed₁
  obtain ⟨h₃, found, listed₃⟩ := rep.firstAfterRemoval listed₂ holds
  refine ⟨_, ?_, rep.take listed₃ holds holdsIds, rfl⟩
  simp [removePriorityQueueNodeWithId, removed, rep.idNodes s mem, show
    q.lists.removeInternalListNode (some (listAt s.priority)) (some s.node) = _ from unlinked, freed, dropped, found]

theorem Represents.removeNode_absent (rep : Represents hash q slots listAt) {id : Id}
    (absent : ∀ s ∈ slots, hash s.id ≠ hash id) :
    ∃ q', q.removePriorityQueueNodeWithId hash id = some (q', none) ∧ Represents hash q' slots listAt := by
  obtain ⟨ids, removed, holdsIds⟩ := rep.ids.remove (hash id)
  rw [byHash_eq_none absent, join_none] at removed
  rw [← byHash_eq_none absent, update_eq_self] at holdsIds
  refine ⟨{ q with ids }, ?_, { rep with ids := holdsIds }⟩
  simp [removePriorityQueueNodeWithId, removed]

theorem Represents.putBack (rep : Represents hash q (a ++ s :: b) listAt)
    (holds : priorities.Holds (update (byPriority listAt (a ++ s :: b)) s.priority none))
    (list : IsList h (listAt s.priority) ((group s.priority (a ++ b)).map Slot.link))
    (listed : Listed (h.freeNode s.node) listAt (a ++ b)) (least : ∀ s' ∈ a ++ b, s.priority ≤ s'.priority) :
    ∃ priorities' h' next,
      PriorityQueue.putBack priorities h s.priority (listAt s.priority) = some (priorities', h', next) ∧
      h'.nodes = h.nodes ∧ priorities'.Holds (byPriority listAt (a ++ b)) ∧
      ∃ h'', headValue (h'.freeNode s.node) next = some (h'', (front Slot.priority (a ++ b)).map Slot.item) ∧
        Listed h'' listAt (a ++ b) := by
  have object := list.object
  by_cases empty : group s.priority (a ++ b) = []
  · rw [empty] at list object
    rw [← byPriority_take_last listAt empty] at holds
    have freed : Listed ((h.freeList (listAt s.priority)).freeNode s.node) listAt (a ++ b) :=
      listed.freeList fun p used => rep.listed.listAt_ne empty used
    refine ⟨priorities, h.freeList (listAt s.priority), _, ?_, rfl, holds, exists_headValue freed holds⟩
    simp only [PriorityQueue.putBack, object, list.destroy, bind_eq_bind, bind_some]
    rfl
  · obtain ⟨priorities', set, holds'⟩ := holds.set s.priority (some (listAt s.priority))
    have before : byPriority listAt (a ++ s :: b) s.priority = _ := byPriority_of_used (group_ne_nil (by simp))
    rw [update_idem, ← before, update_eq_self, ← byPriority_take listAt empty] at holds'
    refine ⟨priorities', h, _, ?_, rfl, holds', listed.headValue empty least⟩
    simp [PriorityQueue.putBack, object, -group_append, empty, set]

theorem Represents.shiftNode (rep : Represents hash q (a ++ s :: b) listAt)
    (first : front Slot.priority (a ++ s :: b) = some s) (earliest : group s.priority a = []) :
    ∃ q', q.shiftPriorityQueueNode hash = some (q', some s.item) ∧ Represents hash q' (a ++ b) listAt ∧
      q'.items = q.items := by
  have mem : s ∈ a ++ s :: b := by simp
  have used := group_ne_nil mem
  have least := (front_spec first).2.1
  obtain ⟨priorities, removedList, holds⟩ := rep.priorities.remove s.priority
  rw [byPriority_of_used used, join_some] at removedList
  have list := rep.listed.list s.priority used
  rw [links_middle, earliest] at list
  obtain ⟨h₁, shifted, list₁, node, within⟩ := list.shift
  have same : group s.priority b = group s.priority (a ++ b) := by rw [group_append, earliest, nil_append]
  rw [same] at list₁
  have within' : Within (listAt s.priority) (((group s.priority (a ++ s :: b)).map Slot.link).map Prod.fst)
    q.lists h₁ := by
    rw [links_middle, earliest]
    exact within
  obtain ⟨priorities', h₂, next, put, nodes, holds', h₃, found, listed⟩ :=
    rep.putBack holds list₁ (rep.listed.take list₁ within') fun s' mem' => least s' (by grind)
  have freed : h₂.freeListNode s.node = some (h₂.freeNode s.node, s.item) := by
    rw [ListMemory.freeListNode, nodes, show h₁.nodes s.node = _ from node]
    rfl
  obtain ⟨ids, removed, holdsIds⟩ := rep.ids.remove (hash s.id)
  rw [byHash_eq_some rep.hashes mem, join_some] at removed
  refine ⟨_, ?_, rep.take listed holds' holdsIds, rfl⟩
  have head : q.first = some s.item := rep.first.trans (by rw [first]; rfl)
  unfold Slot.priority at *
  unfold Slot.id at removed
  rw [shiftPriorityQueueNode, head]
  simp [rep.items s mem, removedList, show q.lists.shiftListNode (some (listAt s.content.priority)) = _ from shifted,
    put, show s.link.1 = s.node from rfl, freed, removed, found]

end Queue

namespace PriorityQueue

variable {Id V : Type}

instance (new : Addresses) (q : PriorityQueue Id V) : Decidable (new.Unused q) :=
  decidable_of_iff (q.lists.nodes new.node = none ∧ q.lists.lists new.list = none ∧ q.idNodes new.idNode = none)
    ⟨fun h => ⟨h.1, h.2.1, h.2.2⟩, fun h => ⟨h.node, h.list, h.idNode⟩⟩

def Call.id? : Call Id V → Option Id
  | .push _ id _ _ _ | .remove id | .setPriority id _ _ => some id
  | .shift | .peek => none

def Call.Allowed (xs : List (Item Id V)) : Call Id V → Prop
  | .push _ id _ _ _ => ∀ x ∈ xs, x.id ≠ id
  | .setPriority id _ _ => ∃ x ∈ xs, x.id = id
  | .shift | .peek | .remove _ => True

/-- What `malloc` returns is not in use; for a new priority this is after the element was removed. -/
def Call.Fresh (hash : Id → ℕ) (q : PriorityQueue Id V) : Call Id V → Prop
  | .push _ _ _ pn new => q.items pn = none ∧ new.Unused q
  | .setPriority id _ new => ∀ r ∈ q.removePriorityQueueNodeWithId hash id, new.Unused r.1
  | .shift | .peek | .remove _ => True

def callBoth [DecidableEq Id] (hash : Id → ℕ) (s : PriorityQueue Id V × List (Item Id V)) (c : Call Id V) :
    Option (PriorityQueue Id V × List (Item Id V)) :=
  (s.1.call hash c).map fun r => (r.1, (StableQueue.call s.2 c).1)

def Proper (hash : Id → ℕ) (s : PriorityQueue Id V × List (Item Id V)) (c : Call Id V) : Prop :=
  c.Allowed s.2 ∧ c.Fresh hash s.1

instance [DecidableEq Id] (hash : Id → ℕ) (s : PriorityQueue Id V × List (Item Id V)) (c : Call Id V) :
    Decidable (Proper hash s c) := by
  cases c <;> dsimp only [Proper, Call.Allowed, Call.Fresh] <;> infer_instance

def Agrees [DecidableEq Id] (hash : Id → ℕ) (s : PriorityQueue Id V × List (Item Id V)) (c : Call Id V) : Prop :=
  ∃ q, s.1.call hash c = some (q, (StableQueue.call s.2 c).2) ∧
    q.length = (StableQueue.call s.2 c).1.length ∧ (q.first = none ↔ q.length = 0)

end PriorityQueue

section Runs

open PriorityQueue

variable {Id V : Type} {hash : Id → ℕ} {used : Set Id} {q : PriorityQueue Id V} {xs : List (Item Id V)}
  {slots a b : List (Slot Id V)} {s : Slot Id V} {listAt : ℕ → ℕ}

def Models (hash : Id → ℕ) (used : Set Id) (q : PriorityQueue Id V) (xs : List (Item Id V)) : Prop :=
  ∃ slots listAt, Represents hash q slots listAt ∧ slots.map Slot.content = xs ∧ ∀ s ∈ slots, s.id ∈ used

theorem Models.length_first (models : Models hash used q xs) :
    q.length = xs.length ∧ (q.first = none ↔ q.length = 0) := by
  obtain ⟨slots, listAt, rep, rfl, -⟩ := models
  refine ⟨by rw [rep.length, length_map], ?_⟩
  rw [rep.first, map_eq_none_iff, front_eq_none, rep.length]
  simp

theorem Represents.setItem (rep : Represents hash q slots listAt) {pn : ℕ} (apart : ∀ s ∈ slots, s.item ≠ pn)
    (e : Option (Item Id V)) : Represents hash { q with items := update q.items pn e } slots listAt :=
  { rep with items := fun s mem => (update_of_ne (apart s mem) _ _).trans (rep.items s mem) }

theorem Represents.item_ne (rep : Represents hash q (a ++ s :: b) listAt) : ∀ s' ∈ a ++ b, s'.item ≠ s.item := by
  have nodup : ((s :: (a ++ b)).map Slot.item).Nodup := (perm_middle.map _).nodup_iff.1 rep.itemNodup
  exact fun s' mem eq => (nodup_cons.1 nodup).1 (eq ▸ mem_map_of_mem mem)

theorem Represents.id_ne (rep : Represents hash q (a ++ s :: b) listAt) : ∀ s' ∈ a ++ b, hash s'.id ≠ hash s.id := by
  have nodup : ((s :: (a ++ b)).map fun s => hash s.id).Nodup := (perm_middle.map _).nodup_iff.1 rep.hashes
  exact fun s' mem eq => (nodup_cons.1 nodup).1 (mem_map.2 ⟨s', mem, eq⟩)

theorem Represents.release (rep : Represents hash q (a ++ b) listAt) (item : q.items s.item = some s.content)
    (apart : ∀ s' ∈ a ++ b, s'.item ≠ s.item) :
    ∃ q', q.release (some s.item) = some (q', some s.content) ∧ Represents hash q' (a ++ b) listAt :=
  ⟨_, by rw [PriorityQueue.release, item]; rfl, rep.setItem apart none⟩

theorem front_contents (slots : List (Slot Id V)) :
    front Item.priority (slots.map Slot.content) = (front Slot.priority slots).map Slot.content :=
  front_map Slot.content slots

theorem Represents.exists_front (rep : Represents hash q slots listAt) (first : front Slot.priority slots = some s) :
    ∃ a b, slots = a ++ s :: b ∧ group s.priority a = [] := by
  obtain ⟨mem, -, head⟩ := front_spec first
  obtain ⟨a, b, rfl⟩ := append_of_mem mem
  refine ⟨a, b, rfl, ?_⟩
  rcases eq : group s.priority a with _ | ⟨s', rest⟩
  · rfl
  · change (group s.priority (a ++ s :: b)).head? = some s at head
    rw [group_append, eq] at head
    obtain rfl : s' = s := some.inj head
    have mem' : s' ∈ a := (mem_group.1 (eq ▸ mem_cons_self : s' ∈ group s'.priority a)).1
    exact absurd rfl (rep.item_ne s' (mem_append_left _ mem'))

theorem Models.push (models : Models hash used q xs) (distinct : Set.InjOn hash used) {priority pn : ℕ}
    {id : Id} {value : V}
    {new : Addresses} (inUse : id ∈ used) (allowed : ∀ x ∈ xs, x.id ≠ id) (fresh : q.items pn = none)
    (unused : new.Unused q) :
    ∃ q', q.pushPriorityQueue hash priority id value pn new = some q' ∧
    Models hash used q' (xs ++ [⟨priority, id, value⟩]) := by
  obtain ⟨slots, listAt, rep, rfl, ids⟩ := models
  have apart : ∀ s ∈ slots, s.item ≠ pn := fun s mem eq => some_ne_none _ ((rep.items s mem).symm.trans (eq ▸ fresh))
  obtain ⟨q', listAt', run, rep'⟩ := (rep.setItem apart (some ⟨priority, id, value⟩)).pushNode
    (s := ⟨pn, new.node, new.idNode, ⟨priority, id, value⟩⟩) (update_self ..) apart
    (fun s mem eq => allowed s.content (mem_map_of_mem mem) (distinct (ids s mem) inUse eq))
    ⟨unused.node, unused.list, unused.idNode⟩ rfl rfl
  exact ⟨q', run, _, listAt', rep', by rw [map_append]; rfl, forall_mem_append.2 ⟨ids, forall_mem_singleton.2 inUse⟩⟩

theorem Models.peek (models : Models hash used q xs) : q.peekPriorityQueue = some (front Item.priority xs) := by
  obtain ⟨slots, listAt, rep, rfl, -⟩ := models
  rw [peekPriorityQueue, rep.first, front_contents]
  rcases first : front Slot.priority slots with _ | s
  · rfl
  · simp [rep.items s (front_spec first).1]

variable [DecidableEq Id]

theorem without_contents (rep : Represents hash q (a ++ s :: b) listAt) :
    without s.id ((a ++ s :: b).map Slot.content) = (a ++ b).map Slot.content := by
  have ne : ∀ s' ∈ a ++ b, s'.content.id ≠ s.id := fun s' mem eq => rep.id_ne s' mem (congrArg hash eq)
  rw [without, List.filter_map, filter_append, filter_cons_of_neg (by simp [Slot.id]),
    ← filter_append, filter_eq_self.2 fun s' mem => by simpa using ne s' mem]

theorem find_contents (rep : Represents hash q (a ++ s :: b) listAt) :
    find s.id ((a ++ s :: b).map Slot.content) = some s.content := by
  have ne : ∀ s' ∈ a, s'.content.id ≠ s.id := fun s' mem eq => rep.id_ne s' (mem_append_left _ mem) (congrArg hash eq)
  rw [find, find?_map, find?_append, find?_eq_none.2 fun s' mem => by simpa using ne s' mem,
    find?_cons_of_pos (by simp [Slot.id])]
  rfl

theorem Models.shift (models : Models hash used q xs) :
    ∃ q', q.shiftPriorityQueue hash = some (q', (StableQueue.call xs .shift).2) ∧
      Models hash used q' (StableQueue.call xs .shift).1 := by
  obtain ⟨slots, listAt, rep, rfl, ids⟩ := models
  simp only [StableQueue.call, front_contents]
  rcases first : front Slot.priority slots with _ | s
  · have none : q.first = none := rep.first.trans (by rw [first]; rfl)
    refine ⟨q, ?_, slots, listAt, rep, rfl, ids⟩
    rw [shiftPriorityQueue, shiftPriorityQueueNode, none]
    rfl
  · obtain ⟨a, b, rfl, earliest⟩ := rep.exists_front first
    obtain ⟨q₁, shifted, rep₁, items⟩ := rep.shiftNode first earliest
    obtain ⟨q', released, rep'⟩ := rep₁.release (by rw [items, rep.items s (by simp)]) rep.item_ne
    refine ⟨q', ?_, a ++ b, listAt, rep', (without_contents rep).symm, fun s' mem => ids s' (by grind)⟩
    rw [shiftPriorityQueue, shifted]
    exact released

theorem Represents.exists_id (distinct : Set.InjOn hash used) (ids : ∀ s ∈ slots, s.id ∈ used) {id : Id}
    (inUse : id ∈ used) :
    (∃ a s b, slots = a ++ s :: b ∧ s.id = id) ∨ ∀ s ∈ slots, hash s.id ≠ hash id := by
  by_cases found : ∃ s ∈ slots, s.id = id
  · obtain ⟨s, mem, rfl⟩ := found
    obtain ⟨a, b, rfl⟩ := append_of_mem mem
    exact .inl ⟨a, s, b, rfl, rfl⟩
  · exact .inr fun s mem eq => found ⟨s, mem, distinct (ids s mem) inUse eq⟩

theorem Models.remove (models : Models hash used q xs) (distinct : Set.InjOn hash used) {id : Id} (inUse : id ∈ used) :
    ∃ q', q.removePriorityQueueElementWithId hash id = some (q', find id xs) ∧
      Models hash used q' (without id xs) := by
  obtain ⟨slots, listAt, rep, rfl, ids⟩ := models
  rcases Represents.exists_id distinct ids inUse with ⟨a, s, b, rfl, rfl⟩ | absent
  · obtain ⟨q₁, removed, rep₁, items⟩ := rep.removeNode
    obtain ⟨q', released, rep'⟩ := rep₁.release (by rw [items, rep.items s (by simp)]) rep.item_ne
    refine ⟨q', ?_, a ++ b, listAt, rep', (without_contents rep).symm, fun s' mem => ids s' (by grind)⟩
    rw [removePriorityQueueElementWithId, removed, find_contents rep]
    exact released
  · obtain ⟨q', removed, rep'⟩ := rep.removeNode_absent absent
    have ne : ∀ s ∈ slots, s.content.id ≠ id := fun s mem eq => absent s mem (congrArg hash eq)
    refine ⟨q', ?_, slots, listAt, rep', ?_, ids⟩
    · rw [removePriorityQueueElementWithId, removed, find, find?_map,
        find?_eq_none.2 fun s mem => by simpa using ne s mem]
      rfl
    · rw [without, List.filter_map, filter_eq_self.2 fun s mem => by simpa using ne s mem]

theorem Models.setPriority (models : Models hash used q xs) {id : Id} {priority : ℕ} {new : Addresses}
    (present : ∃ x ∈ xs, x.id = id)
    (unused : ∀ r ∈ q.removePriorityQueueNodeWithId hash id, new.Unused r.1) :
    ∃ q', q.setPriorityForIdInPriorityQueue hash id priority new = some q' ∧
      Models hash used q' (StableQueue.call xs (.setPriority id priority new)).1 := by
  obtain ⟨slots, listAt, rep, rfl, ids⟩ := models
  obtain ⟨x, content, rfl⟩ := present
  obtain ⟨s, mem, rfl⟩ := mem_map.1 content
  obtain ⟨a, b, rfl⟩ := append_of_mem mem
  obtain ⟨q₁, removed, rep₁, items⟩ := rep.removeNode
  have item : q₁.items s.item = some s.content := by rw [items, rep.items s mem]
  let s' : Slot Id V := ⟨s.item, new.node, new.idNode, { s.content with priority }⟩
  obtain ⟨q', listAt', pushed, rep'⟩ := (rep₁.setItem rep.item_ne (some s'.content)).pushNode
    (s := s') (update_self ..) rep.item_ne rep.id_ne
    ⟨(unused _ removed).node, (unused _ removed).list, (unused _ removed).idNode⟩ rfl rfl
  have ids' : ∀ s₁ ∈ a ++ b, s₁.id ∈ used := fun s₁ mem₁ => ids s₁ (by grind)
  refine ⟨q', ?_, a ++ b ++ [s'], listAt', rep', ?_, forall_mem_append.2 ⟨ids', forall_mem_singleton.2 (ids s mem)⟩⟩
  · simp only [setPriorityForIdInPriorityQueue,
      show q.removePriorityQueueNodeWithId hash s.content.id = _ from removed, item,
      bind_eq_bind, bind_some]
    exact pushed
  · have found := find_contents rep
    have rest := without_contents rep
    unfold Slot.id at found rest
    rw [StableQueue.call, found, elim_some, rest, map_append]
    rfl

theorem Models.call (models : Models hash used q xs) (distinct : Set.InjOn hash used) (c : Call Id V)
    (inUse : ∀ id ∈ c.id?, id ∈ used) (proper : Proper hash (q, xs) c) :
    ∃ q', q.call hash c = some (q', (call xs c).2) ∧ Models hash used q' (call xs c).1 := by
  obtain ⟨allowed, fresh⟩ := proper
  cases c with
  | push priority id value pn new =>
    obtain ⟨q', run, models'⟩ := models.push distinct (inUse id rfl) allowed fresh.1 fresh.2
    exact ⟨q', by rw [PriorityQueue.call, run]; rfl, models'⟩
  | shift => exact models.shift
  | peek => exact ⟨q, by rw [PriorityQueue.call, models.peek]; rfl, models⟩
  | remove id => exact models.remove distinct (inUse id rfl)
  | setPriority id priority new =>
    obtain ⟨q', run, models'⟩ := models.setPriority allowed fresh
    exact ⟨q', by rw [PriorityQueue.call, run]; rfl, models'⟩

/-- **The priority queue is a stable queue.** In every run of proper calls whose ids have different hashes, each call
returns what it does there. -/
theorem agrees_of_proper (hash : Id → ℕ) (calls : List (Call Id V))
    (distinct : ∀ id ∈ calls.filterMap Call.id?, ∀ id' ∈ calls.filterMap Call.id?, hash id = hash id' → id = id')
    (proper : Along (callBoth hash) (Proper hash) (initializePriorityQueue, []) calls) :
    Along (callBoth hash) (Agrees hash) (initializePriorityQueue, []) calls := by
  let used : Set Id := {id | id ∈ calls.filterMap Call.id?}
  have inj : Set.InjOn hash used := fun id mem id' mem' => distinct id mem id' mem'
  have proper' := proper.of_mem (D := fun s c => Proper hash s c ∧ ∀ id ∈ c.id?, id ∈ used)
    fun s c mem h => ⟨h, fun id eq => mem_filterMap.2 ⟨c, mem, eq⟩⟩
  refine proper'.imp (P := fun s => Models hash used s.1 s.2) ?_ ?_ ⟨[], _, represents_initialize hash, rfl, nofun⟩
  · rintro ⟨q, xs⟩ c s' models ⟨proper, inUse⟩ run
    obtain ⟨q', called, models'⟩ := models.call inj c inUse proper
    rw [callBoth, called] at run
    cases run
    exact models'
  · rintro ⟨q, xs⟩ c models ⟨proper, inUse⟩
    obtain ⟨q', called, models'⟩ := models.call inj c inUse proper
    exact ⟨q', called, models'.length_first⟩

/-- Two elements of one priority and one of a smaller priority; the earliest one is moved behind the others. -/
theorem agrees_of_proper_moved :
    Along (callBoth (V := ℕ) (sdbmStringHash 64)) (Agrees (sdbmStringHash 64)) (initializePriorityQueue, [])
      [.push 5 [97#32] 10 0 ⟨0, 0, 0⟩, .push 5 [98#32] 11 1 ⟨1, 1, 1⟩, .push 3 [97#32, 98#32] 12 2 ⟨2, 2, 2⟩, .peek,
        .setPriority [97#32] 5 ⟨0, 3, 0⟩, .shift, .shift, .remove [97#32], .shift] :=
  agrees_of_proper (sdbmStringHash 64) _ (by decide +kernel) (by decide +kernel)

end Runs

end OpenWifi.Ericstools
