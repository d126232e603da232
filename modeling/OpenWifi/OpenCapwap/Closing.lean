import OpenWifi.OpenCapwap.Handover

/-!
# The stations of a closed WTP

`_CWCloseThread` looks for a station of the WTP and deletes it until there is none.  `AVLfindWTPNode` does not return
what it finds below the root.
-/

namespace OpenWifi.OpenCapwap.StationTree

open List Option Zipper Avl

variable {t u l r : StationTree} {v : Label Station} {s : Side} {a : Address} {c : Station} {i : ℤ}

/-- `AVLfindWTPNode`; `none` is the undefined value when the function ends without a `return`. -/
def findWTPNode (index : ℤ) : StationTree → Option (Option Station)
  | .nil => some none
  | .node v _ _ => if v.core.index = index then some (some v.core) else none

/-- `AVLdeleteNodeWithoutRadioID`. -/
def deleteWithoutRadioID : StationTree → Address → Option StationTree
  | .nil, _ => some .nil
  | .node v l r, staAddr =>
    if compareEthAddr staAddr v.core.staAddr < 0 then
      (deleteWithoutRadioID l staAddr).bind fun l => rebalanceDeleted (.node v l r)
    else if 0 < compareEthAddr staAddr v.core.staAddr then
      (deleteWithoutRadioID r staAddr).bind fun r => rebalanceDeleted (.node v l r)
    else deleteRoot v.height l r fun temp => deleteWithoutRadioID r temp.staAddr

/-- The loop at the end of `_CWCloseThread` for the WTP `i`. -/
def closeLoop (i : ℤ) : ℕ → StationTree → Option StationTree
  | 0, _ => none
  | fuel + 1, avlTree => (findWTPNode i avlTree).bind fun tmp =>
    match tmp with
    | none => some avlTree
    | some tmp =>
      (deleteWithoutRadioID avlTree tmp.staAddr).bind fun avlTree =>
        if avlTree = .nil then some avlTree else closeLoop i fuel avlTree

/-- The loop ends, with the stations of the other WTPs. -/
def Closes (i : ℤ) (t : StationTree) : Prop :=
  ∃ fuel u, closeLoop i fuel t = some u ∧ cores u = (cores t).filter (·.index ≠ i)

theorem deleteWithoutRadioID_join (toward : Toward s a v.core.staAddr) : deleteWithoutRadioID (join s v l r) a =
      (deleteWithoutRadioID l a).bind fun l => rebalanceDeleted (join s v l r) := by
  cases s <;> exact toward.branch _ _ _

theorem deleteRoot_congr {h : ℤ} {f g : Station → Option StationTree} (same : ∀ c ∈ cores r, f c = g c) :
    deleteRoot h l r f = deleteRoot h l r g := by
  cases l with
  | nil => rfl
  | node w x y =>
    cases r with
    | nil => rfl
    | node z p q =>
      obtain ⟨next, rest, list, found⟩ := exists_next z p q
      rw [deleteRoot_both found, deleteRoot_both found, same next (by simp [list])]

theorem deleteWithoutRadioID_eq (ordered : Ordered stationKey t) (mem : c ∈ cores t) :
    deleteWithoutRadioID t c.staAddr = deleteAt t c.staAddr c.radioID := by
  induction t generalizing c with
  | nil => exact absurd mem not_mem_nil
  | node v l r ihl ihr =>
    obtain ⟨left, right, -⟩ := ordered_node.1 ordered
    rcases toward_or_eq c.staAddr v.core.staAddr with ⟨_ | _, toward⟩ | same
    · have below := ihl left ((mem_join (s := .left) ordered toward).1 mem)
      exact (deleteWithoutRadioID_join (s := .left) toward).trans (below ▸ (deleteAt_join (s := .left) toward).symm)
    · have below := ihr right ((mem_join (s := .right) ordered toward).1 mem)
      exact (deleteWithoutRadioID_join (s := .right) toward).trans (below ▸ (deleteAt_join (s := .right) toward).symm)
    · obtain rfl : c = v.core := ordered.eq_of_key mem (by simp) (congrArg addressKey same)
      rw [deleteAt_root, if_pos rfl, deleteWithoutRadioID, branch_self]
      exact deleteRoot_congr fun next memR => ihr right memR

theorem closeLoop_node (ordered : Ordered stationKey (.node v l r)) (fuel : ℕ) : closeLoop i (fuel + 1) (.node v l r) =
    if v.core.index = i then (StationTree.deleteAt (.node v l r) v.core.staAddr v.core.radioID).bind fun u =>
        if u = .nil then some u else closeLoop i fuel u else none := by
  rw [closeLoop, findWTPNode]
  split_ifs
  · rw [← deleteWithoutRadioID_eq ordered (by simp)]
    rfl
  · rfl

theorem root_deleted (ordered : Ordered stationKey (.node v l r))
    (deleted : deleteAt (.node v l r) v.core.staAddr v.core.radioID = some u) :
    Adds v.core (cores u) (cores (.node v l r)) ∧ Ordered stationKey u := by
  have adds := (deleteAt_leaves ordered deleted).1 v.core (by simp) rfl rfl
  exact ⟨adds, ordered.sublist adds.sublist⟩

theorem own_of_closeLoop {fuel : ℕ} (ordered : Ordered stationKey t) (closed : closeLoop i fuel t = some u) :
    ∀ c ∈ cores t, c.index = i := by
  induction fuel generalizing t with
  | zero => exact absurd closed nofun
  | succ fuel ih =>
    cases t with
    | nil => exact nofun
    | node v l r =>
      rw [closeLoop_node ordered] at closed
      obtain ⟨own, closed⟩ := ite_none_right_eq_some.1 closed
      obtain ⟨x, deleted, closed⟩ := bind_eq_some_iff.1 closed
      obtain ⟨adds, ordered'⟩ := root_deleted ordered deleted
      have rest : ∀ c ∈ cores x, c.index = i := by
        split_ifs at closed with empty
        · rw [empty]
          exact nofun
        · exact ih ordered' closed
      exact fun c mem => (adds.mem_iff.1 mem).elim (fun eq => eq ▸ own) (rest c)

/-! ## Low trees -/

theorem child_lt (avl : IsAvl (.node v l r)) : ht l < v.height ∧ ht r < v.height ∧ 0 ≤ v.height := by
  have stored := avl.1
  have root := avl.nonneg v (by simp)
  omega

theorem absorbed_next (avl : IsAvl (.node v l r)) (ordered : Ordered stationKey (.node v l r)) (low : v.height ≤ 1)
    (found : minValueNode (.node v l r) = some c) : Absorbed (way (.node v l r) c.staAddr) := by
  obtain ⟨left, right, -⟩ := child_lt avl
  cases l with
  | nil =>
    cases found
    rw [way_root, if_pos rfl]
    trivial
  | node w x y =>
    obtain ⟨below, -, root⟩ := child_lt avl.2.2.1
    have height : ht (.node w x y) = w.height := rfl
    cases x with
    | node z p q =>
      have := (child_lt avl.2.2.1.2.2.1).2.2
      have : ht (.node z p q) = z.height := rfl
      omega
    | nil =>
      cases found
      have toward : Toward .left w.core.staAddr v.core.staAddr := toward_of_mem (s := .left) ordered (by simp)
      rw [show way (.node v (.node w .nil y) r) w.core.staAddr = _ from way_join (s := .left) toward,
        way_root, if_pos rfl]
      exact ⟨trivial, fun _ => by dsimp only; omega⟩

/-- In a balanced tree with at most one station on the left the root can be deleted, and the tree stays one. -/
theorem deleteAt_low (avl : IsAvl (.node v l r)) (ordered : Ordered stationKey (.node v l r)) (low : ht l ≤ 0) :
    ∃ u, deleteAt (.node v l r) v.core.staAddr v.core.radioID = some u ∧ IsAvl u ∧ ht (child .left u) ≤ 0 := by
  obtain ⟨-, balance, avlL, avlR⟩ := id avl
  have lower {x : StationTree} (avl : IsAvl x) (le : ht x ≤ 0) : ht (child .left x) ≤ 0 := by
    cases x with
    | nil => simp
    | node w p q => exact (child_lt avl).1.le.trans le
  rw [deleteAt_root, if_pos rfl]
  cases l with
  | nil => exact ⟨r, rebalanceDeleted_of_isAvl avlR, avlR, lower avlR (by rw [ht_nil] at balance; omega)⟩
  | node w x y =>
    cases r with
    | nil => exact ⟨_, rebalanceDeleted_of_isAvl avlL, avlL, lower avlL low⟩
    | node z p q =>
      have rootL : 0 ≤ ht (.node w x y) := (child_lt avlL).2.2
      have rootR : 0 ≤ ht (.node z p q) := (child_lt avlR).2.2
      obtain ⟨next, rest, list, found⟩ := exists_next z p q
      have absorbed := absorbed_next avlR (ordered_node.1 ordered).2.1 (show ht (.node z p q) ≤ 1 by omega) found
      obtain ⟨r', deleted, avl', -, height⟩ :=
        deletes_present avlR (ordered_node.1 ordered).2.1 (by simp [list]) absorbed
      have level : -1 ≤ ht (.node w x y) - ht r' ∧ ht (.node w x y) - ht r' ≤ 1 := by
        split_ifs at height <;> omega
      refine ⟨mk .left next (.node w x y) r', ?_, isAvl_mk.2 ⟨level, avlL, avl'⟩, by rwa [child_mk]⟩
      rw [deleteRoot_both found, deleted]
      exact rebalanceDeleted_level (s := .left) ⟨next, v.height⟩ level

theorem exists_closeLoop (avl : IsAvl t) (ordered : Ordered stationKey t) (low : ht (child .left t) ≤ 0)
    (own : ∀ c ∈ cores t, c.index = i) : ∃ fuel, closeLoop i fuel t = some .nil := by
  induction count : (cores t).length generalizing t with
  | zero =>
    cases t with
    | nil => exact ⟨1, rfl⟩
    | node => simp at count
  | succ n ih =>
    cases t with
    | nil => exact ⟨1, rfl⟩
    | node v l r =>
      obtain ⟨u, deleted, avlU, lowU⟩ := deleteAt_low avl ordered low
      obtain ⟨adds, orderedU⟩ := root_deleted ordered deleted
      have fewer : (cores u).length = n := by
        obtain ⟨front, back, coresU, coresT⟩ := adds
        rw [coresT] at count
        simp only [coresU, length_append, length_cons] at count ⊢
        omega
      obtain ⟨fuel, closed⟩ := ih avlU orderedU lowU (fun c mem => own c (adds.mem_iff.2 (.inr mem))) fewer
      refine ⟨fuel + 1, ?_⟩
      rw [closeLoop_node ordered, if_pos (own _ (by simp)), deleted, bind_some]
      split_ifs with empty
      · rw [empty]
      · exact closed

end OpenWifi.OpenCapwap.StationTree
