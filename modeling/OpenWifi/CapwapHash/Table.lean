import OpenWifi.CapwapHash.Rotation
import Mathlib.Algebra.Order.BigOperators.Group.Finset

/-!
# What a hash stands for

`Rep cb hash T` says that the buckets of `hash` hold the trees `T`: search trees for the keys, each key in the bucket
its hash value names, with the item count the number of stored items.
-/

namespace OpenWifi.CapwapHash

open Zipper Avl LinkedTree
open Function (update update_of_ne update_self forall_update_iff)

variable {κ δ : Type}

def datas (t : ITree δ) : List δ := (cores t).map fun c => c.2.data

@[simp] theorem datas_nil : datas (.nil : ITree δ) = [] := rfl

@[simp] theorem datas_node (v : Label (Addr × Core δ)) (l r : ITree δ) :
    datas (.node v l r) = datas l ++ v.core.2.data :: datas r := by
  simp [datas]

theorem datas_plug (p : IPath δ) (t : ITree δ) :
    datas (plug p t) = (before p).map (fun v => v.core.2.data) ++ datas t ++ (after p).map fun v => v.core.2.data := by
  simp only [datas, cores_plug, List.map_append, List.map_map]
  rfl

variable [LinearOrder κ] (cb : Callbacks κ δ)

def keyOf (c : Addr × Core δ) : κ := cb.itemGetkey c.2.data

def Ordered (l : List δ) : Prop := l.Pairwise fun d e => cb.itemGetkey d < cb.itemGetkey e

def Sorted (t : ITree δ) : Prop := Ordered cb (datas t)

/-- Keys on side `s` of an item. -/
def Toward (s : Side) (key : κ) (c : Addr × Core δ) : Prop :=
  match s with
  | .left => key < keyOf cb c
  | .right => keyOf cb c < key

/-- The position lies where `key` belongs: after the smaller and before the larger keys. -/
def Between (p : IPath δ) (key : κ) : Prop :=
  (∀ v ∈ before p, keyOf cb v.core < key) ∧ ∀ v ∈ after p, key < keyOf cb v.core

theorem sorted_plug {p : IPath δ} {t : ITree δ} (h : Sorted cb (plug p t)) : Sorted cb t := by
  rw [Sorted, Ordered, datas_plug, List.append_assoc] at h
  exact (List.pairwise_append.1 (List.pairwise_append.1 h).2.1).1

variable {v : Label (Addr × Core δ)}

theorem Sorted.toward {s : Side} {t u : ITree δ} (h : Sorted cb (join s v t u)) :
    (∀ c ∈ cores t, Toward cb s (keyOf cb c) v.core) ∧ ∀ c ∈ cores u, Toward cb s.flip (keyOf cb c) v.core := by
  rw [Sorted, Ordered, datas, List.pairwise_map] at h
  cases s
  · rw [cores_join_left, List.pairwise_append, List.pairwise_cons] at h
    exact ⟨fun c hc => h.2.2 c hc _ List.mem_cons_self, h.2.1.1⟩
  · rw [cores_join_right, List.pairwise_append, List.pairwise_cons] at h
    exact ⟨h.2.1.1, fun c hc => h.2.2 c hc _ List.mem_cons_self⟩

variable {key : κ}

theorem Between.cons {p : IPath δ} (h : Between cb p key) {s : Side} {t u : ITree δ} (sorted : Sorted cb (join s v t u))
    (side : Toward cb s key v.core) : Between cb (⟨v, s, u⟩ :: p) key := by
  have far := (sorted.toward cb).2
  have mem : ∀ w ∈ inorder u, w.core ∈ cores u := fun w hw => List.mem_map_of_mem hw
  cases s
  · refine ⟨h.1, fun w hw => ?_⟩
    simp only [after, List.cons_append, List.mem_cons, List.mem_append] at hw
    rcases hw with rfl | hw | hw
    · exact side
    · exact lt_trans side (far _ (mem w hw))
    · exact h.2 w hw
  · refine ⟨fun w hw => ?_, h.2⟩
    simp only [before, List.mem_append, List.mem_singleton] at hw
    rcases hw with hw | hw | rfl
    · exact h.1 w hw
    · exact lt_trans (far _ (mem w hw)) side
    · exact side

/-- `new` is the ordered list `old` with what it has for `key` replaced by `entry`. -/
def Splice (key : κ) (entry : Option δ) (old new : List δ) : Prop :=
  ∃ A X B, old = A ++ X ++ B ∧ new = A ++ entry.toList ++ B ∧
    (∀ d ∈ A, cb.itemGetkey d < key) ∧ (∀ d ∈ B, key < cb.itemGetkey d) ∧
    (∀ d ∈ X, cb.itemGetkey d = key) ∧ ∀ d ∈ entry, cb.itemGetkey d = key

variable {entry : Option δ}

theorem Splice.mem {old new : List δ} (h : Splice cb key entry old new)
    (d : δ) : d ∈ new ↔ entry = some d ∨ d ∈ old ∧ cb.itemGetkey d ≠ key := by
  obtain ⟨A, X, B, rfl, rfl, hA, hB, hX, -⟩ := h
  have hA' : d ∈ A → cb.itemGetkey d ≠ key := fun hd => ne_of_lt (hA d hd)
  have hB' : d ∈ B → cb.itemGetkey d ≠ key := fun hd => ne_of_gt (hB d hd)
  have hX' : d ∈ X → cb.itemGetkey d = key := hX d
  simp only [List.mem_append, Option.mem_toList]
  tauto

theorem Splice.ordered {old new : List δ} (h : Splice cb key entry old new) (ordered : Ordered cb old) :
    Ordered cb new := by
  obtain ⟨A, X, B, rfl, rfl, hA, hB, -, hy⟩ := h
  simp only [Ordered, List.pairwise_append, List.mem_append] at ordered ⊢
  obtain ⟨⟨oA, -, -⟩, oB, oAB⟩ := ordered
  refine ⟨⟨oA, ?_, ?_⟩, oB, ?_⟩
  · cases entry <;> simp
  · intro d hd e he
    rw [hy e (Option.mem_toList.1 he)]
    exact hA d hd
  · rintro d (hd | hd) e he
    · exact oAB d (.inl hd) e he
    · rw [hy d (Option.mem_toList.1 hd)]
      exact hB e he

theorem splice_node {p : IPath δ} {l r : ITree δ} (sorted : Sorted cb (plug p (.node v l r)))
    (same : ∀ d ∈ entry, cb.itemGetkey d = keyOf cb v.core) :
    Splice cb (keyOf cb v.core) entry (datas (plug p (.node v l r)))
      (((before p).map (fun v => v.core.2.data) ++ datas l) ++ entry.toList ++
        (datas r ++ (after p).map fun v => v.core.2.data)) := by
  have split : datas (plug p (.node v l r)) = ((before p).map (fun v => v.core.2.data) ++ datas l) ++ [v.core.2.data] ++
        (datas r ++ (after p).map fun v => v.core.2.data) := by
    simp [datas_plug]
  rw [Sorted, Ordered, split, List.append_assoc, List.pairwise_append, List.singleton_append,
    List.pairwise_cons] at sorted
  refine ⟨_, _, _, split, rfl, ?_, ?_, by simp [keyOf], same⟩
  · intro d hd
    exact sorted.2.2 d hd _ List.mem_cons_self
  · intro d hd
    exact sorted.2.1.1 d hd

/-! ## The representation -/

/-- The buckets of the hash hold the search trees `T`. -/
structure Rep (hash : Hash δ) (T : ℕ → ITree δ) : Prop where
  size_pos : 0 < hash.hashsize
  holds : ∀ i < hash.hashsize, Holds ⟨hash.heap, hash.items i⟩ (T i)
  sorted : ∀ i < hash.hashsize, Sorted cb (T i)
  placed : ∀ i < hash.hashsize, ∀ d ∈ datas (T i), cb.itemGethash (cb.itemGetkey d) hash.hashsize = i
  apart : ∀ i < hash.hashsize, ∀ j < hash.hashsize, i ≠ j → (addrs (T i)).Disjoint (addrs (T j))
  old : ∀ i < hash.hashsize, ∀ a ∈ addrs (T i), a < hash.fresh
  count_eq : hash.count = ∑ i ∈ Finset.range hash.hashsize, (datas (T i)).length

variable {T : ℕ → ITree δ} {hash : Hash δ}

theorem Rep.items_eq (rep : Rep cb hash T) {i : ℕ}
    (hi : i < hash.hashsize) : hash.items i = root (T i) := (rep.holds i hi).root_eq

theorem Rep.unique {T T' : ℕ → ITree δ} (rep : Rep cb hash T) (rep' : Rep cb hash T')
    {i : ℕ} (hi : i < hash.hashsize) : T i = T' i :=
  (rep.holds i hi).owns.unique (rep'.holds i hi).owns
    ((rep.items_eq cb hi).symm.trans (rep'.items_eq cb hi))

theorem rep_create {hashsize : ℕ} (pos : 0 < hashsize) : Rep cb (create hashsize : Hash δ) fun _ => .nil where
  size_pos := pos
  holds := fun _ _ => ⟨rfl, trivial, List.nodup_nil, nonneg_nil⟩
  sorted := fun _ _ => List.Pairwise.nil
  placed := fun _ _ d hd => by simp at hd
  apart := fun _ _ _ _ _ => List.disjoint_nil_left _
  old := fun _ _ a ha => by simp at ha
  count_eq := by simp [create]

section

variable {hash hash' : Hash δ} (rep : Rep cb hash T) {i : ℕ} (hi : i < hash.hashsize) {t : ITree δ}
    {b : Bucket δ} (hold : Holds b t) (inside : ∀ a ∈ addrs t, a ∈ addrs (T i) ∨ hash.fresh ≤ a ∧ a < hash'.fresh)
    (off : ∀ a, a ∉ addrs (T i) → a < hash.fresh → b.heap a = hash.heap a)
    (heap : hash'.heap = b.heap) (items : hash'.items = update hash.items i b.root)
    (size : hash'.hashsize = hash.hashsize) (fresh : hash.fresh ≤ hash'.fresh)
    (count : hash'.count + (datas (T i)).length = hash.count + (datas t).length)
include rep hi hold inside off heap items size fresh count

theorem Rep.bucket (sorted : Sorted cb t) (placed : ∀ d ∈ datas t, cb.itemGethash (cb.itemGetkey d) hash.hashsize = i) :
    Rep cb hash' (update T i t) := by
  have same : ∀ j, j ≠ i → update T i t j = T j := fun j hj => update_of_ne hj _ _
  have away : ∀ j < hash.hashsize, j ≠ i → ∀ a ∈ addrs (T j), a ∉ addrs t := by
    intro j hj hji a ha hat
    rcases inside a hat with h | h
    · exact rep.apart j hj i hi hji ha h
    · exact absurd (rep.old j hj a ha) (not_lt.2 h.1)
  refine ⟨size ▸ rep.size_pos, ?_, ?_, ?_, ?_, ?_, ?_⟩
  · intro j hj
    rw [size] at hj
    by_cases hji : j = i
    · subst hji
      rw [update_self, heap, items, update_self]
      exact hold
    · rw [same j hji, heap, items, update_of_ne hji]
      obtain ⟨hr, ho, hd, hn⟩ := rep.holds j hj
      refine ⟨hr, ho.frame fun a ha => ?_, hd, hn⟩
      exact off a (rep.apart j hj i hi hji ha) (rep.old j hj a ha)
  · exact (forall_update_iff T fun j t => j < hash'.hashsize → Sorted cb t).2
      ⟨fun _ => sorted, fun j _ hj => rep.sorted j (size ▸ hj)⟩
  · intro j hj
    rw [size] at hj ⊢
    by_cases hji : j = i
    · subst hji; rwa [update_self]
    · rw [same j hji]; exact rep.placed j hj
  · intro j hj k hk hjk
    rw [size] at hj hk
    by_cases hji : j = i
    · subst hji
      rw [update_self, same k (Ne.symm hjk)]
      exact fun a ha hak => away k hk (Ne.symm hjk) a hak ha
    · rw [same j hji]
      by_cases hki : k = i
      · subst hki; rw [update_self]; exact fun a ha hat => away j hj hji a ha hat
      · rw [same k hki]; exact rep.apart j hj k hk hjk
  · intro j hj a ha
    rw [size] at hj
    by_cases hji : j = i
    · subst hji
      rw [update_self] at ha
      rcases inside a ha with h | h
      · exact lt_of_lt_of_le (rep.old j hj a h) fresh
      · exact h.2
    · rw [same j hji] at ha
      exact lt_of_lt_of_le (rep.old j hj a ha) fresh
  · have hmem := Finset.mem_range.2 hi
    have new : ∑ j ∈ Finset.range hash.hashsize, (datas (update T i t j)).length =
        (datas t).length + ∑ j ∈ (Finset.range hash.hashsize).erase i, (datas (T j)).length := by
      rw [← Finset.add_sum_erase _ _ hmem, update_self]
      congr 1
      apply Finset.sum_congr rfl
      intro j hj
      rw [same j (Finset.ne_of_mem_erase hj)]
    have total := rep.count_eq
    rw [← Finset.add_sum_erase _ _ hmem] at total
    rw [size, new]
    omega

theorem Rep.splice (home : cb.itemGethash key hash.hashsize = i)
    (entries : Splice cb key entry (datas (T i)) (datas t)) :
    Rep cb hash' (update T i t) := by
  refine rep.bucket cb hi hold inside off heap items size fresh count (entries.ordered cb (rep.sorted i hi)) ?_
  intro d hd
  rcases (entries.mem cb d).1 hd with e | ⟨hold, -⟩
  · obtain ⟨A, X, B, -, -, -, -, -, hk⟩ := entries
    rw [hk d e]
    exact home
  · exact rep.placed i hi d hold

end

/-- Some bucket stores `d`. -/
def Stored (hashsize : ℕ) (T : ℕ → ITree δ) (d : δ) : Prop := ∃ i < hashsize, d ∈ datas (T i)

theorem Rep.stored_splice (rep : Rep cb hash T) {i : ℕ} (home : cb.itemGethash key hash.hashsize = i) {t : ITree δ}
    (entries : Splice cb key entry (datas (T i)) (datas t)) (d : δ) :
    Stored hash.hashsize (update T i t) d ↔ entry = some d ∨ Stored hash.hashsize T d ∧ cb.itemGetkey d ≠ key := by
  have hi : i < hash.hashsize := home ▸ cb.gethash_lt _ _ rep.size_pos
  constructor
  · rintro ⟨j, hj, hd⟩
    by_cases hji : j = i
    · subst hji
      rw [update_self] at hd
      exact ((entries.mem cb d).1 hd).imp id fun h => ⟨⟨j, hj, h.1⟩, h.2⟩
    · rw [update_of_ne hji] at hd
      refine .inr ⟨⟨j, hj, hd⟩, fun e => hji ?_⟩
      rw [← rep.placed j hj d hd, e, home]
  · rintro (e | ⟨⟨j, hj, hd⟩, ne⟩)
    · refine ⟨i, hi, ?_⟩
      rw [update_self]
      exact (entries.mem cb d).2 (.inl e)
    · refine ⟨j, hj, ?_⟩
      by_cases hji : j = i
      · subst hji
        rw [update_self]
        exact (entries.mem cb d).2 (.inr ⟨hd, ne⟩)
      · rwa [update_of_ne hji]

theorem Rep.setRemove (rep : Rep cb hash T) (next : Option Addr) : Rep cb { hash with removeitems := next } T :=
  ⟨rep.size_pos, rep.holds, rep.sorted, rep.placed, rep.apart, rep.old, rep.count_eq⟩

theorem Rep.core_eq (rep : Rep cb hash T) {i : ℕ} (hi : i < hash.hashsize) {c : Addr × Core δ} (hc : c ∈ cores (T i)) :
    (hash.heap c.1).map Cell.core = some c.2 := (rep.holds i hi).owns.core_eq hc

end OpenWifi.CapwapHash
