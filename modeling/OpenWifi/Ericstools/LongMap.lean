import OpenWifi.Lib.BalanceFactors
import OpenWifi.Lib.SearchTree
import Mathlib.Data.Set.Card

/-!
# The map of numbers

`tree_map.c` keeps a map from numbers to pointers in an AVL tree that stores balance factors.  On its way down an
operation records the links that it follows; on the way back it rebalances the nodes behind them as long as the subtrees
have grown or have become lower.
-/

namespace OpenWifi.Ericstools

open Option (bind_some)
open Function (update update_of_ne update_idem)

open Zipper Balance Weighted

/-! ## Nodes and rotations -/

/-- The key and the value of a `long_map_node`; the value is `none` for `NULL`. -/
structure Entry (K β : Type*) where
  key : K
  value : Option β
  deriving DecidableEq

/-- The tree that a `long_map_node *` points to. -/
abbrev NodeTree (K β : Type*) := BTree (Entry K β)

abbrev MapNode (K β : Type*) := Weighted (Entry K β)

abbrev Links (K β : Type*) := Path (MapNode K β)

/-- `long_map`. -/
structure LongMap (K β : Type*) where
  root : NodeTree K β
  numElements : ℕ

variable {K β : Type*}

/-- A rotation that raises the child on the side `s`; `none` when it is `NULL` and is dereferenced. -/
def rotate (s : Side) (parent : NodeTree K β) : Option (NodeTree K β) :=
  match parent, child s parent with
  | .node oldParent _ _, .node pivot l r =>
    some (join s pivot (child s (.node pivot l r))
      (join s oldParent (child s.flip (.node pivot l r)) (child s.flip parent)))
  | _, _ => none

/-- `rotate_right`. -/
def rotateRight : NodeTree K β → Option (NodeTree K β) := rotate .left

/-- `rotate_left`. -/
def rotateLeft : NodeTree K β → Option (NodeTree K β) := rotate .right

def setBalance (b : ℤ) : NodeTree K β → NodeTree K β
  | .nil => .nil
  | .node v l r => .node { v with balance := b } l r

/-- The subtree on the side `s` is changed. -/
def setChild (s : Side) (f : NodeTree K β → NodeTree K β) : NodeTree K β → NodeTree K β
  | .nil => .nil
  | .node v l r => join s v (f (child s (.node v l r))) (child s.flip (.node v l r))

/-- The part of `rebalance` for a node whose subtree on the side `s` is too high. -/
def rebalanceHeavy (s : Side) (n : NodeTree K β) : Option (NodeTree K β) :=
  match child s n with
  | .nil => none
  | .node heavy l r =>
    if 0 < sign s * heavy.balance then
      (rotate s n).map fun n => setBalance 0 (setChild s.flip (setBalance 0) n)
    else if heavy.balance = 0 then
      (rotate s n).map fun n => setBalance (-sign s) (setChild s.flip (setBalance (sign s)) n)
    else
      (rotate s.flip (.node heavy l r)).bind fun raised =>
        (rotate s (setChild s (fun _ => raised) n)).map fun n =>
          setBalance 0
            (setChild .left (setBalance (if 0 < balanceOf n then -1 else 0))
              (setChild .right (setBalance (if balanceOf n < 0 then 1 else 0)) n))

/-- `rebalance`: the subtree behind the link, and the factor that is returned. -/
def rebalance (n : NodeTree K β) (direction updateOp : ℤ) : Option (NodeTree K β × ℤ) :=
  match n with
  | .nil => none
  | .node v l r =>
    let n := setBalance (v.balance + updateOp * direction) (.node v l r)
    (if balanceOf n < -1 then rebalanceHeavy .left n else some n).bind fun n =>
      (if 1 < balanceOf n then rebalanceHeavy .right n else some n).bind fun n => some (n, balanceOf n)

/-- The loop of `set_long_map_element` over the links, from the new subtree on. -/
def climbInserted (t : NodeTree K β) : Links K β → Option (NodeTree K β)
  | [] => some t
  | f :: fs => do
    let (n, newBalance) ← rebalance (f.fill t) (sign f.side) 1
    if newBalance ≠ 0 then climbInserted n fs else some (plug fs n)

/-- The loop of `remove_long_map_element` over the links. -/
def climbRemoved (t : NodeTree K β) : Links K β → Option (NodeTree K β)
  | [] => some t
  | f :: fs => do
    let (n, newBalance) ← rebalance (f.fill t) (sign f.side) (-1)
    if newBalance = 0 then climbRemoved n fs else some (plug fs n)

/-! ## Operations -/

section Operations

variable [LinearOrder K]

def descend (key : K) : NodeTree K β → Links K β → NodeTree K β × Links K β
  | .nil, links => (.nil, links)
  | .node v l r, links =>
    if key = v.core.key then (.node v l r, links)
    else if key < v.core.key then descend key l (⟨v, .left, r⟩ :: links)
    else descend key r (⟨v, .right, l⟩ :: links)

/-- The loop of `get_long_map_element`. -/
def getNode (key : K) : NodeTree K β → Option β
  | .nil => none
  | .node v l r =>
    if key = v.core.key then v.core.value
    else if key < v.core.key then getNode key l
    else getNode key r

def smallestNode : NodeTree K β → Links K β →
    Option (MapNode K β × NodeTree K β × Links K β)
  | .nil, _ => none
  | .node v .nil r, links => some (v, r, links)
  | .node v l r, links => smallestNode l (⟨v, .left, r⟩ :: links)

/-- The loops of `get_smallest_long_map_element` and `get_largest_long_map_element`: the node at the end of a side. -/
def endNode (s : Side) : NodeTree K β → Option (Entry K β)
  | .nil => none
  | .node v l r =>
    match s with
    | .left => (endNode s l).or (some v.core)
    | .right => (endNode s r).or (some v.core)

/-- The replacement of the node that is removed: the subtree at the lowest link that has changed, and the links from
there up. -/
def replace (v : MapNode K β) (l r : NodeTree K β) (links : Links K β) : NodeTree K β × Links K β :=
  match r with
  | .nil => (l, links)
  | .node replacement .nil rest => (rest, ⟨{ replacement with balance := v.balance }, .right, l⟩ :: links)
  | r =>
    match smallestNode r [] with
    | none => (l, links)
    | some (replacement, rest, below) =>
      (rest, below ++ ⟨{ replacement with balance := v.balance }, .right, l⟩ :: links)

namespace LongMap

/-- `initialize_long_map`. -/
def initializeLongMap : LongMap K β := ⟨.nil, 0⟩

/-- `get_long_map_element`. -/
def get (map : LongMap K β) (key : K) : Option β := getNode key map.root

def getEnd (s : Side) (map : LongMap K β) (key : K) : Option β × K :=
  match endNode s map.root with
  | none => (none, key)
  | some e => (e.value, e.key)

/-- `get_smallest_long_map_element`. -/
def getSmallest : LongMap K β → K → Option β × K := getEnd .left

/-- `get_largest_long_map_element`. -/
def getLargest : LongMap K β → K → Option β × K := getEnd .right

/-- `set_long_map_element`; `none` for an access through `NULL`. -/
def set (map : LongMap K β) (key : K) (value : Option β) : Option (LongMap K β × Option β) :=
  match descend key map.root [] with
  | (.nil, links) =>
    (climbInserted (.node ⟨⟨key, value⟩, 0⟩ .nil .nil) links).map fun root => (⟨root, map.numElements + 1⟩, none)
  | (.node v l r, links) =>
    some ({ map with root := plug links (.node { v with core.value := value } l r) }, v.core.value)

/-- `remove_long_map_element`. -/
def remove (map : LongMap K β) (key : K) : Option (LongMap K β × Option β) :=
  match descend key map.root [] with
  | (.nil, _) => some (map, none)
  | (.node v l r, links) =>
    let (rest, links) := replace v l r links
    (climbRemoved rest links).map fun root => (⟨root, map.numElements - 1⟩, v.core.value)

def removeEnd (s : Side) (map : LongMap K β) (key : K) : Option (LongMap K β × Option β × K) :=
  let key := (map.getEnd s key).2
  (map.remove key).map fun (map, value) => (map, value, key)

/-- `remove_smallest_long_map_element`. -/
def removeSmallest : LongMap K β → K → Option (LongMap K β × Option β × K) := removeEnd .left

/-- `remove_largest_long_map_element`. -/
def removeLargest : LongMap K β → K → Option (LongMap K β × Option β × K) := removeEnd .right

/-- `get_sorted_node_keys`: the keys written so far, with those of the subtree behind them. -/
def sortedNodeKeys : NodeTree K β → List K → List K
  | .nil, keys => keys
  | .node v l r, keys => sortedNodeKeys r (sortedNodeKeys l keys ++ [v.core.key])

/-- `get_sorted_long_map_keys`: the keys, and the number that is returned. -/
def getSortedKeys (map : LongMap K β) : List K × ℕ := (sortedNodeKeys map.root [], map.numElements)

end LongMap

end Operations

/-! ## Rebalancing -/

section Rebalancing

variable {s : Side} {v x y z : MapNode K β} {a b c l r t : NodeTree K β}

theorem rotate_join (s : Side) (x y : MapNode K β) (a b c : NodeTree K β) :
    rotate s (join s x (join s y a b) c) = some (join s y a (join s x b c)) := by
  cases s <;> rfl

theorem rebalanceHeavy_join (s : Side) (x y : MapNode K β) (a b c : NodeTree K β) :
    rebalanceHeavy s (join s x (join s y a b) c) = if 0 < sign s * y.balance then
        some (join s { y with balance := 0 } a (join s { x with balance := 0 } b c))
      else if y.balance = 0 then
        some (join s { y with balance := -sign s } a (join s { x with balance := sign s } b c))
      else
        (rotate s.flip (join s y a b)).bind fun raised =>
          (rotate s (join s x raised c)).map fun n =>
            setBalance 0
              (setChild .left (setBalance (if 0 < balanceOf n then -1 else 0))
                (setChild .right (setBalance (if balanceOf n < 0 then 1 else 0)) n)) := by
  cases s <;> rfl

theorem setBalance_double (s : Side) (x y z : MapNode K β) (a b c d : NodeTree K β) : setBalance 0
        (setChild .left (setBalance (if 0 < z.balance then -1 else 0))
          (setChild .right (setBalance (if z.balance < 0 then 1 else 0)) (join s z (join s y a b) (join s x c d)))) =
      join s { z with balance := 0 }
        (join s { y with balance := sign s * if sign s * z.balance < 0 then 1 else 0 } a b)
        (join s { x with balance := sign s * if 0 < sign s * z.balance then -1 else 0 } c d) := by
  cases s <;> simp [join, setChild, setBalance, sign, child]

theorem rotate_inner (s : Side) (y z : MapNode K β) (a p q : NodeTree K β) :
    rotate s.flip (join s y a (join s z p q)) = some (join s z (join s y a p) q) := by
  have raised := rotate_join s.flip y z q p a
  rwa [join_flip, join_flip, join_flip, join_flip] at raised

/-- A node that is higher by two on one side is balanced by rotations.  It gets lower when its factor is zero then,
which it is unless the higher child was level. -/
theorem rebalanceHeavy_spec (hl : IsBalanced l) (hr : IsBalanced r) (two : l.height = r.height + 2) :
    ∃ u, rebalanceHeavy s (join s x l r) = some u ∧ IsBalanced u ∧ cores u = cores (join s x l r) ∧
      u.height + (if balanceOf u = 0 then 1 else 0) = l.height + 1 ∧ (balanceOf l ≠ 0 → balanceOf u = 0) := by
  rcases eq_nil_or_join s l with rfl | ⟨y, a, b, rfl⟩
  · rw [BinaryTree.height] at two
    omega
  obtain ⟨factor, level, ha, hb⟩ := isBalanced_join.1 hl
  have sided : sign s * y.balance = (a.height : ℤ) - b.height := by rw [factor, sign_mul_sign_mul]
  have zero : y.balance = 0 ↔ (a.height : ℤ) - b.height = 0 := by rw [factor, sign_mul_eq_zero]
  rw [height_join] at two
  rw [rebalanceHeavy_join, balanceOf_join, sided]
  rcases (by omega : (a.height : ℤ) - b.height = 1 ∨ (a.height : ℤ) - b.height = 0 ∨ (a.height : ℤ) - b.height = -1)
    with outer | even | inner
  · have balanced := isBalanced_single (s := s) (x := x.core) (y := y.core) (k := 1) ha hb hr
      (by omega) (by omega) (.inr rfl)
    simp only [sub_self, mul_zero] at balanced
    rw [if_pos (by omega)]
    refine ⟨_, rfl, balanced, cores_raise a b r rfl rfl, ?_, fun _ => balanceOf_join ..⟩
    rw [balanceOf_join, if_pos rfl, height_join, height_join, height_join]
    omega
  · have balanced := isBalanced_single (s := s) (x := x.core) (y := y.core) (k := 0) ha hb hr
      (by omega) (by omega) (.inl rfl)
    simp only [zero_sub, sub_zero, mul_one, mul_neg] at balanced
    rw [if_neg (by omega), if_pos (zero.2 even)]
    refine ⟨_, rfl, balanced, cores_raise a b r rfl rfl, ?_, fun uneven => absurd (zero.2 even) uneven⟩
    have nonzero : -sign s ≠ 0 := by cases s <;> decide
    rw [balanceOf_join, if_neg nonzero, height_join, height_join, height_join]
    omega
  · rcases eq_nil_or_join s b with rfl | ⟨z, p, q, rfl⟩
    · rw [BinaryTree.height] at inner
      omega
    obtain ⟨factor', level', hp, hq⟩ := isBalanced_join.1 hb
    have uneven : y.balance ≠ 0 := mt zero.1 (by omega)
    rw [height_join] at two inner
    have balanced := isBalanced_double (s := s) (x := x.core) (y := y.core) (z := z.core) (w := z.balance) ha hp hq hr
      (by rw [factor', sign_mul_sign_mul]) level' (by omega) (by omega)
    rw [if_neg (by rw [height_join]; omega), if_neg uneven, rotate_inner, bind_some, rotate_join,
      Option.map_some, balanceOf_join,
      setBalance_double]
    refine ⟨_, rfl, balanced, ?_, ?_, fun _ => balanceOf_join ..⟩
    · cases s <;> simp [join]
    · rw [balanceOf_join, if_pos rfl]
      simp only [height_join]
      omega

theorem rebalance_join (s : Side) (v : MapNode K β) (l r : NodeTree K β) (direction updateOp : ℤ) :
    rebalance (join s v l r) direction updateOp = (if v.balance + updateOp * direction < -1 then
        rebalanceHeavy .left (join s { v with balance := v.balance + updateOp * direction } l r)
        else some (join s { v with balance := v.balance + updateOp * direction } l r)).bind fun n =>
          (if 1 < balanceOf n then rebalanceHeavy .right n else some n).bind fun n => some (n, balanceOf n) := by
  cases s <;> rfl

theorem rebalance_level {direction updateOp : ℤ} (hl : IsBalanced l) (hr : IsBalanced r)
    (factor : v.balance + updateOp * direction = sign s * ((l.height : ℤ) - r.height))
    (level : -1 ≤ (l.height : ℤ) - r.height ∧ (l.height : ℤ) - r.height ≤ 1) :
    ∃ u, rebalance (join s v l r) direction updateOp = some (u, balanceOf u) ∧ IsBalanced u ∧
      cores u = cores (join s v l r) ∧ u.height = max l.height r.height + 1 ∧
      (balanceOf u = 0 ↔ l.height = r.height) := by
  have small : ¬ sign s * ((l.height : ℤ) - r.height) < -1 ∧ ¬ 1 < sign s * ((l.height : ℤ) - r.height) := by
    cases s <;> simp only [sign] <;> omega
  refine ⟨join s ⟨v.core, sign s * ((l.height : ℤ) - r.height)⟩ l r, ?_, isBalanced_join.2 ⟨rfl, level, hl, hr⟩,
    cores_join_congr rfl rfl rfl, height_join .., ?_⟩
  · rw [rebalance_join, factor, if_neg small.1, bind_some, balanceOf_join, if_neg small.2, bind_some,
      balanceOf_join]
  · rw [balanceOf_join, sign_mul_eq_zero]
    omega

theorem rebalance_heavy {direction updateOp : ℤ} (hl : IsBalanced l) (hr : IsBalanced r) (two : l.height = r.height + 2)
    (factor : v.balance + updateOp * direction = sign s * ((l.height : ℤ) - r.height)) :
    ∃ u, rebalance (join s v l r) direction updateOp = some (u, balanceOf u) ∧ IsBalanced u ∧
      cores u = cores (join s v l r) ∧ u.height + (if balanceOf u = 0 then 1 else 0) = l.height + 1 ∧
      (balanceOf l ≠ 0 → balanceOf u = 0) := by
  obtain ⟨u, heavy, balanced, same, height, even⟩ :=
    rebalanceHeavy_spec (s := s) (x := { v with balance := v.balance + updateOp * direction }) hl hr two
  have small := balanced.balanceOf_le
  refine ⟨u, ?_, balanced, same.trans (cores_join_congr rfl rfl rfl), height, even⟩
  have difference : (l.height : ℤ) - r.height = 2 := by omega
  rw [difference] at factor
  rw [rebalance_join]
  cases s with
  | left => rw [if_pos (by rw [factor]; decide), heavy, bind_some, if_neg (by omega), bind_some]
  | right =>
    have high : 1 < v.balance + updateOp * direction := by rw [factor]; decide
    rw [if_neg (by omega), bind_some, balanceOf_join, if_pos high, heavy, bind_some]

variable {f : Frame (MapNode K β)} {fs : Links K β} {n : NodeTree K β} {newBalance : ℤ}

theorem climbInserted_cons (step : rebalance (f.fill t) (sign f.side) 1 = some (n, newBalance)) :
    climbInserted t (f :: fs) = if newBalance ≠ 0 then climbInserted n fs else some (plug fs n) := by
  rw [climbInserted, step]
  rfl

theorem climbRemoved_cons (step : rebalance (f.fill t) (sign f.side) (-1) = some (n, newBalance)) :
    climbRemoved t (f :: fs) = if newBalance = 0 then climbRemoved n fs else some (plug fs n) := by
  rw [climbRemoved, step]
  rfl

section

variable {links : Links K β} {h : ℕ} (fits : Fits links h) (balanced : IsBalanced t)
include fits balanced

theorem climbInserted_spec (grown : t.height = h + 1) (uneven : balanceOf t ≠ 0 ∨ h = 0) :
    ∃ u, climbInserted t links = some u ∧ IsBalanced u ∧ cores u = cores (plug links t) := by
  induction links generalizing t h with
  | nil => exact ⟨t, rfl, balanced, rfl⟩
  | cons f fs ih =>
    obtain ⟨factor, level, sibling, above⟩ := fits
    have factor' : f.value.balance + 1 * sign f.side = sign f.side * ((t.height : ℤ) - f.sibling.height) := by
      rw [factor, grown, Nat.cast_add, Nat.cast_one]
      ring
    obtain ⟨n, step, balancedN, same, height⟩ : ∃ n, rebalance (f.fill t) (sign f.side) 1 = some (n, balanceOf n) ∧
        IsBalanced n ∧ cores n = cores (f.fill t) ∧
        n.height = max h f.sibling.height + 1 + if balanceOf n = 0 then 0 else 1 := by
      by_cases two : t.height = f.sibling.height + 2
      · -- the subtree was the higher one already: the rotations take the growth back
        obtain ⟨n, step, balancedN, same, height, even⟩ := rebalance_heavy balanced sibling two factor'
        have zero := even (uneven.resolve_right (by omega))
        rw [if_pos zero] at height
        exact ⟨n, step, balancedN, same, by rw [if_pos zero]; omega⟩
      · obtain ⟨n, step, balancedN, same, height, even⟩ := rebalance_level balanced sibling factor' (by omega)
        refine ⟨n, step, balancedN, same, ?_⟩
        simp only [height, even]
        split <;> omega
    rw [climbInserted_cons step]
    by_cases zero : balanceOf n = 0
    · rw [if_pos zero, Nat.add_zero] at height
      rw [if_neg (not_not.2 zero)]
      exact ⟨_, rfl, isBalanced_plug.2 ⟨balancedN, by rwa [height]⟩, cores_plug_congr same fs⟩
    · rw [if_neg zero] at height
      rw [if_pos zero]
      obtain ⟨u, rest, balanced', cores'⟩ := ih above balancedN height (.inl zero)
      exact ⟨u, rest, balanced', cores'.trans (cores_plug_congr same fs)⟩

theorem climbRemoved_spec (lowered : t.height + 1 = h) :
    ∃ u, climbRemoved t links = some u ∧ IsBalanced u ∧ cores u = cores (plug links t) := by
  induction links generalizing t h with
  | nil => exact ⟨t, rfl, balanced, rfl⟩
  | cons f fs ih =>
    obtain ⟨factor, level, sibling, above⟩ := fits
    have factor' : f.value.balance + -1 * sign f.side = sign f.side * ((t.height : ℤ) - f.sibling.height) := by
      rw [factor, ← lowered, Nat.cast_add, Nat.cast_one]
      ring
    obtain ⟨n, step, balancedN, same, height⟩ : ∃ n, rebalance (f.fill t) (sign f.side) (-1) = some (n, balanceOf n) ∧
        IsBalanced n ∧ cores n = cores (f.fill t) ∧
        n.height + (if balanceOf n = 0 then 1 else 0) = max h f.sibling.height + 1 := by
      by_cases two : f.sibling.height = t.height + 2
      · -- the other subtree was the higher one already and is too high now
        have factor'' : f.value.balance + -1 * sign f.side =
            sign f.side.flip * ((f.sibling.height : ℤ) - t.height) := by
          rw [factor', sign_flip]
          ring
        obtain ⟨n, step, balancedN, same, height, -⟩ := rebalance_heavy (s := f.side.flip) sibling balanced two factor''
        rw [join_flip] at step same
        exact ⟨n, step, balancedN, same, by omega⟩
      · obtain ⟨n, step, balancedN, same, height, even⟩ := rebalance_level balanced sibling factor' (by omega)
        refine ⟨n, step, balancedN, same, ?_⟩
        simp only [height, even]
        split <;> omega
    rw [climbRemoved_cons step]
    by_cases zero : balanceOf n = 0
    · rw [if_pos zero] at height ⊢
      obtain ⟨u, rest, balanced', cores'⟩ := ih above balancedN height
      exact ⟨u, rest, balanced', cores'.trans (cores_plug_congr same fs)⟩
    · rw [if_neg zero, Nat.add_zero] at height
      rw [if_neg zero]
      exact ⟨_, rfl, isBalanced_plug.2 ⟨balancedN, by rwa [height]⟩, cores_plug_congr same fs⟩

end

end Rebalancing

/-! ## The ways down -/

section Ways

open Avl (Growing Adds growing_append_cons)

variable {v w : MapNode K β} {l r t rest : NodeTree K β} {links below : Links K β}

theorem smallestNode_spec (found : smallestNode t links = some (w, rest, below)) :
    plug below (.node w .nil rest) = plug links t ∧ before below = before links := by
  induction t generalizing links with
  | nil => exact absurd found nofun
  | node v l r ihl _ =>
    cases l with
    | nil =>
      obtain ⟨rfl, rfl, rfl⟩ : v = w ∧ r = rest ∧ links = below := by simpa [smallestNode] using found
      exact ⟨rfl, rfl⟩
    | node x a b =>
      obtain ⟨whole, front⟩ :=
        ihl (show smallestNode (.node x a b) (⟨v, .left, r⟩ :: links) = some (w, rest, below) from found)
      exact ⟨whole, front⟩

theorem exists_smallestNode (v : MapNode K β) (l r : NodeTree K β) (links : Links K β) :
    ∃ w rest below, smallestNode (.node v l r) links = some (w, rest, below) := by
  induction l generalizing v r links with
  | nil => exact ⟨v, r, links, rfl⟩
  | node x a b iha _ => exact iha x b (⟨v, .left, r⟩ :: links)

theorem replace_eq (v : MapNode K β) (l : NodeTree K β) (links : Links K β)
    (found : smallestNode r [] = some (w, rest, below)) :
    replace v l r links = (rest, below ++ ⟨{ w with balance := v.balance }, .right, l⟩ :: links) := by
  cases r with
  | nil => exact absurd found nofun
  | node x a b =>
    cases a with
    | nil =>
      obtain ⟨rfl, rfl, rfl⟩ : x = w ∧ b = rest ∧ [] = below := by simpa [smallestNode] using found
      rfl
    | node y c d => simp [replace, found]

theorem replace_spec (balanced : IsBalanced (plug links (.node v l r))) {links' : Links K β}
    (replaced : replace v l r links = (rest, links')) : IsBalanced rest ∧ Fits links' (rest.height + 1) ∧
      Adds v.core (cores (plug links' rest)) (cores (plug links (.node v l r))) := by
  obtain ⟨⟨factor, level, left, right⟩, fits⟩ := isBalanced_plug.1 balanced
  cases r with
  | nil =>
    cases replaced
    refine ⟨left, by simpa [BinaryTree.height] using fits, ?_⟩
    rw [cores_plug, cores_plug, cores_node, cores_nil]
    exact ⟨(before links).map core ++ cores l, (after links).map core, by simp, by simp⟩
  | node x a b =>
    obtain ⟨w, rest', below, found⟩ := exists_smallestNode x a b []
    rw [replace_eq v l links found] at replaced
    obtain ⟨rfl, rfl⟩ := Prod.mk.inj replaced
    obtain ⟨whole, front⟩ := smallestNode_spec found
    rw [plug_nil] at whole
    rw [← whole] at right factor fits ⊢
    obtain ⟨smallest, fitsBelow⟩ := isBalanced_plug.1 right
    have height : (BinaryTree.node w .nil rest').height = rest'.height + 1 := by simp [BinaryTree.height]
    refine ⟨smallest.2.2.2, ?_, ?_⟩
    · rw [BinaryTree.height, max_comm] at fits
      rw [← height, fits_append]
      refine ⟨fitsBelow, ?_, ?_, left, fits⟩
      · rw [factor, sign, one_mul]
      · rwa [factor] at level
    · rw [plug_append, plug_cons, cores_plug links, cores_plug links, Frame.fill, join, cores_node, cores_node,
        cores_plug below, cores_plug below, front, cores_node]
      exact ⟨(before links).map core ++ cores l,
        w.core :: cores rest' ++ (after below).map core ++ (after links).map core,
        by simp [before], by simp [before]⟩

end Ways

section Descent

open Avl (Growing growing_append_cons)

variable [LinearOrder K] {key : K} {v : MapNode K β} {l r t : NodeTree K β} {links : Links K β}

theorem plug_descend (key : K) (t : NodeTree K β) (links : Links K β) :
    plug (descend key t links).2 (descend key t links).1 = plug links t := by
  induction t generalizing links with
  | nil => rfl
  | node v l r ihl ihr =>
    rw [descend]
    split_ifs
    · rfl
    · rw [ihl]
      rfl
    · rw [ihr]
      rfl

theorem key_of_descend (found : (descend key t links).1 = .node v l r) : v.core.key = key := by
  induction t generalizing links with
  | nil => exact absurd found nofun
  | node w x y ihl ihr =>
    rw [descend] at found
    split_ifs at found with same
    · obtain ⟨rfl, -⟩ := BinaryTree.node.inj found
      exact same.symm
    · exact ihl found
    · exact ihr found

def Between (key : K) (links : Links K β) : Prop :=
  (∀ e ∈ (before links).map core, e.key < key) ∧ ∀ e ∈ (after links).map core, key < e.key

theorem getNode_descend (key : K) (t : NodeTree K β) (links : Links K β) :
    getNode key (descend key t links).1 = getNode key t := by
  induction t generalizing links with
  | nil => rfl
  | node v l r ihl ihr =>
    rw [descend]
    split_ifs with same less
    · rfl
    · rw [ihl, getNode, if_neg same, if_pos less]
    · rw [ihr, getNode, if_neg same, if_neg less]

theorem LongMap.remove_value {map map' : LongMap K β} {value : Option β}
    (removed : map.remove key = some (map', value)) :
    value = map.get key := by
  rw [LongMap.get, ← getNode_descend key map.root []]
  rw [LongMap.remove] at removed
  split at removed
  next reached =>
    rw [reached]
    exact (Prod.mk.inj (Option.some.inj removed)).2.symm
  next v l r links reached =>
    obtain ⟨root, -, eq⟩ := Option.map_eq_some_iff.1 removed
    rw [reached, getNode, if_pos (key_of_descend (congrArg Prod.fst reached)).symm]
    exact (Prod.mk.inj eq).2.symm

theorem between_descend (key : K) (growing : Growing Entry.key (cores t)) (between : Between key links)
    (missing : (descend key t links).1 = .nil) : Between key (descend key t links).2 := by
  induction t generalizing links with
  | nil => exact between
  | node v l r ihl ihr =>
    rw [cores_node, growing_append_cons] at growing
    obtain ⟨left, right, lower, upper⟩ := growing
    rw [descend] at missing ⊢
    split_ifs at missing ⊢ with same less
    · refine ihl left ⟨between.1, fun e mem => ?_⟩ missing
      simp only [after, List.cons_append, List.map_cons, List.map_append, List.mem_cons, List.mem_append] at mem
      rcases mem with rfl | mem | mem
      · exact less
      · exact less.trans (upper e mem)
      · exact between.2 e mem
    · have more : v.core.key < key := lt_of_le_of_ne (not_lt.1 less) (Ne.symm same)
      refine ihr right ⟨fun e mem => ?_, between.2⟩ missing
      simp only [before, List.map_append, List.map_singleton, List.mem_append, List.mem_singleton] at mem
      rcases mem with mem | mem | rfl
      · exact between.1 e mem
      · exact (lower e mem).trans more
      · exact more

theorem getNode_eq (growing : Growing Entry.key (cores t)) (key : K) :
    getNode key t = (Avl.lookup Entry.key (cores t) key).bind Entry.value := by
  induction t with
  | nil => rfl
  | node v l r ihl ihr =>
    rw [cores_node] at growing ⊢
    obtain ⟨left, right, -⟩ := growing_append_cons.1 growing
    rw [getNode, growing.lookup_append_cons]
    rcases lt_trichotomy key v.core.key with less | rfl | more
    · rw [if_neg less.ne, if_pos less, if_pos less, ihl left]
    · simp
    · rw [if_neg more.ne', if_neg more.not_gt, if_neg more.not_gt, if_pos more, ihr right]

end Descent

theorem endNode_left (t : NodeTree K β) : endNode .left t = (cores t).head? := by
  induction t with
  | nil => rfl
  | node v l r ihl _ =>
    rw [endNode, ihl, cores_node, List.head?_append]
    rfl

theorem endNode_right (t : NodeTree K β) : endNode .right t = (cores t).getLast? := by
  induction t with
  | nil => rfl
  | node v l r _ ihr =>
    rw [endNode, ihr, cores_node, List.getLast?_append, List.getLast?_cons]
    cases (cores r).getLast? <;> simp

theorem sortedNodeKeys_eq (t : NodeTree K β) (keys : List K) :
    LongMap.sortedNodeKeys t keys = keys ++ (cores t).map Entry.key := by
  induction t generalizing keys with
  | nil => simp [LongMap.sortedNodeKeys]
  | node v l r ihl ihr => simp [LongMap.sortedNodeKeys, ihl, ihr]

/-! ## The map -/

abbrev Contents (K β : Type*) := K → Option (Option β)

/-- The key is at the end of the keys on the side `s`. -/
def Contents.IsEnd [LinearOrder K] (m : Contents K β) : Side → K → Prop
  | .left => IsLeast {k | m k ≠ none}
  | .right => IsGreatest {k | m k ≠ none}

theorem Contents.IsEnd.eq [LinearOrder K] {m : Contents K β} {s : Side} {k k' : K} (h : m.IsEnd s k)
    (h' : m.IsEnd s k') :
    k = k' := by
  cases s
  · exact IsLeast.unique h h'
  · exact IsGreatest.unique h h'

theorem Contents.IsEnd.ne_none [LinearOrder K] {m : Contents K β} {s : Side} {k : K} (h : m.IsEnd s k) :
    m k ≠ none := by
  cases s
  · exact h.1
  · exact h.1

namespace LongMap

open Avl (Growing Adds growing_append_cons)

variable [LinearOrder K] {map : LongMap K β} {m : Contents K β}

structure Holds (map : LongMap K β) (m : Contents K β) : Prop where
  balanced : IsBalanced map.root
  growing : Growing Entry.key (cores map.root)
  count : map.numElements = (cores map.root).length
  lookup_eq : ∀ k, (Avl.lookup Entry.key (cores map.root) k).map Entry.value = m k

theorem holds_initialize : Holds (initializeLongMap : LongMap K β) fun _ => none :=
  ⟨trivial, List.Pairwise.nil, rfl, fun _ => rfl⟩

theorem Holds.get_eq (h : Holds map m) (key : K) : map.get key = (m key).join := by
  rw [get, getNode_eq h.growing, ← h.lookup_eq]
  cases Avl.lookup Entry.key (cores map.root) key <;> rfl

section

variable {e : Entry K β} {list list' : List (Entry K β)} (adds : Adds e list list') (growing : Growing Entry.key list')
include adds growing

theorem lookup_of_adds : (fun k => (Avl.lookup Entry.key list' k).map Entry.value) =
      update (fun k => (Avl.lookup Entry.key list k).map Entry.value) e.key (some e.value) := by
  funext k
  rw [adds.lookup_eq growing]
  by_cases own : k = e.key
  · simp [own]
  · rw [if_neg own, update_of_ne own]

theorem lookup_of_less : (fun k => (Avl.lookup Entry.key list k).map Entry.value) =
      update (fun k => (Avl.lookup Entry.key list' k).map Entry.value) e.key none := by
  have own := adds.lookup_own growing
  rw [lookup_of_adds adds growing, update_idem]
  funext k
  by_cases same : k = e.key
  · rw [same, Function.update_self, own]
    rfl
  · rw [update_of_ne same]

end

section

variable (h : Holds map m)
include h

theorem Holds.eq_contents : (fun k => (Avl.lookup Entry.key (cores map.root) k).map Entry.value) = m :=
  funext h.lookup_eq

theorem Holds.reach {key : K} {f : NodeTree K β} {links : Links K β}
    (reached : descend key map.root [] = (f, links)) : plug links f = map.root ∧ (f = .nil → Between key links) := by
  have whole := plug_descend key map.root []
  have inside := between_descend key h.growing (show Between key [] from ⟨nofun, nofun⟩)
  rw [reached] at whole inside
  exact ⟨whole, inside⟩

theorem Holds.set (key : K) (value : Option β) :
    ∃ map', map.set key value = some (map', (m key).join) ∧ Holds map' (update m key (some value)) := by
  rcases reached : descend key map.root [] with ⟨f, links⟩
  obtain ⟨whole, inside⟩ := h.reach reached
  cases f with
  | nil =>
    have fits := (isBalanced_plug.1 (whole ▸ h.balanced)).2
    obtain ⟨root, climb, balanced, same⟩ := climbInserted_spec (t := .node ⟨⟨key, value⟩, 0⟩ .nil .nil) fits
      ⟨rfl, by simp, trivial, trivial⟩ rfl (.inr rfl)
    rw [cores_plug] at same
    have list : cores map.root = (before links).map core ++ (after links).map core := by
      rw [← whole, cores_plug, cores_nil, List.append_nil]
    have list' : cores root = (before links).map core ++ ⟨key, value⟩ :: (after links).map core := by
      rw [same]
      simp
    have adds : Adds ⟨key, value⟩ (cores map.root) (cores root) := ⟨_, _, list, list'⟩
    have growing : Growing Entry.key (cores root) := by
      have parts := h.growing
      rw [list, Growing, List.pairwise_append] at parts
      rw [list', growing_append_cons]
      exact ⟨parts.1, parts.2.1, (inside rfl).1, (inside rfl).2⟩
    have missing : m key = none := by
      rw [← h.lookup_eq, adds.lookup_own growing]
      rfl
    refine ⟨⟨root, map.numElements + 1⟩, ?_, balanced, growing, ?_, fun k => ?_⟩
    · rw [LongMap.set, reached, missing]
      exact congrArg (Option.map _) climb
    · rw [h.count, list, list']
      simp
      omega
    · rw [← h.eq_contents]
      exact congrFun (lookup_of_adds adds growing) k
  | node v l r =>
    obtain rfl : v.core.key = key := key_of_descend (congrArg Prod.fst reached)
    have list : cores map.root = ((before links).map core ++ cores l) ++
        v.core :: (cores r ++ (after links).map core) := by
      rw [← whole, cores_plug]
      simp
    have list' : cores (plug links (.node { v with core.value := value } l r)) =
        ((before links).map core ++ cores l) ++
          ⟨v.core.key, value⟩ :: (cores r ++ (after links).map core) := by
      rw [cores_plug]
      simp
    have growing := h.growing
    rw [list, growing_append_cons] at growing
    have adds : Adds v.core _ (cores map.root) := ⟨_, _, rfl, list⟩
    have growing' : Growing Entry.key (cores (plug links (.node { v with core.value := value } l r))) := by
      rw [list', growing_append_cons]
      exact growing
    have adds' : Adds ⟨v.core.key, value⟩ _ (cores (plug links (.node { v with core.value := value } l r))) :=
      ⟨_, _, rfl, list'⟩
    have stored : m v.core.key = some v.core.value := by
      rw [← h.lookup_eq, adds.lookup_eq h.growing, if_pos rfl]
      rfl
    refine ⟨{ map with root := plug links (.node { v with core.value := value } l r) }, ?_, ?_,
      growing', ?_, fun k => ?_⟩
    · rw [LongMap.set, reached, stored]
      rfl
    · have balanced := h.balanced
      rw [← whole, isBalanced_plug] at balanced
      exact isBalanced_plug.2 balanced
    · rw [h.count, list, list']
      simp
    · have before := lookup_of_adds adds h.growing
      rw [h.eq_contents] at before
      rw [before, update_idem]
      exact congrFun (lookup_of_adds adds' growing') k

theorem Holds.remove (key : K) :
    ∃ map', map.remove key = some (map', (m key).join) ∧ Holds map' (update m key none) := by
  rcases reached : descend key map.root [] with ⟨f, links⟩
  obtain ⟨whole, inside⟩ := h.reach reached
  cases f with
  | nil =>
    have missing : m key = none := by
      rw [← h.lookup_eq, ← whole, cores_plug, cores_nil, List.append_nil, Option.map_eq_none_iff, Avl.lookup_eq_none]
      exact List.forall_mem_append.2 ⟨fun e front => ((inside rfl).1 e front).ne, fun e back =>
        ((inside rfl).2 e back).ne'⟩
    refine ⟨map, ?_, ?_⟩
    · rw [LongMap.remove, reached, missing]
      rfl
    · rwa [← missing, Function.update_eq_self]
  | node v l r =>
    obtain rfl : v.core.key = key := key_of_descend (congrArg Prod.fst reached)
    rcases replaced : replace v l r links with ⟨rest, links'⟩
    obtain ⟨balancedR, fits, adds⟩ := replace_spec (whole ▸ h.balanced) replaced
    obtain ⟨root, climb, balanced, same⟩ := climbRemoved_spec fits balancedR rfl
    rw [whole, ← same] at adds
    have stored : m v.core.key = some v.core.value := by
      rw [← h.lookup_eq, adds.lookup_eq h.growing, if_pos rfl]
      rfl
    refine ⟨⟨root, map.numElements - 1⟩, ?_, balanced, h.growing.sublist adds.sublist, ?_, fun k => ?_⟩
    · rw [LongMap.remove, reached, stored]
      dsimp only
      rw [replaced]
      exact congrArg (Option.map _) climb
    · obtain ⟨front, back, less, more⟩ := adds
      rw [h.count, less, more]
      simp
    · rw [← h.eq_contents]
      exact congrFun (lookup_of_less adds h.growing) k

theorem Holds.ne_none_iff {k : K} : m k ≠ none ↔ ∃ e ∈ cores map.root, e.key = k := by
  rw [← h.lookup_eq, Ne, Option.map_eq_none_iff, Avl.lookup_eq_none]
  simp

theorem Holds.eq_value {e : Entry K β} (mem : e ∈ cores map.root) : m e.key = some e.value := by
  rw [← h.lookup_eq, h.growing.lookup_eq_some.2 ⟨mem, rfl⟩]
  rfl

theorem Holds.getEnd_eq (s : Side) (key : K) :
    (∀ k, m k = none) ∧ map.getEnd s key = (none, key) ∨ ∃ k, m.IsEnd s k ∧ map.getEnd s key = ((m k).join, k) := by
  by_cases empty : cores map.root = []
  · refine .inl ⟨fun k => ?_, ?_⟩
    · by_contra there
      obtain ⟨e, mem, -⟩ := h.ne_none_iff.1 there
      rw [empty] at mem
      exact absurd mem List.not_mem_nil
    · cases s
      · rw [getEnd, endNode_left, empty]
        rfl
      · rw [getEnd, endNode_right, empty]
        rfl
  · right
    cases s with
    | left =>
      obtain ⟨e, rest, list⟩ := List.exists_cons_of_ne_nil empty
      have mem : e ∈ cores map.root := by simp [list]
      refine ⟨e.key, ⟨h.ne_none_iff.2 ⟨e, mem, rfl⟩, fun k there => ?_⟩, ?_⟩
      · obtain ⟨d, memD, rfl⟩ := h.ne_none_iff.1 there
        have growing := h.growing
        rw [list, Growing, List.pairwise_cons] at growing
        rw [list] at memD
        rcases List.mem_cons.1 memD with rfl | later
        · exact le_rfl
        · exact (growing.1 d later).le
      · rw [getEnd, endNode_left, h.eq_value mem, list]
        rfl
    | right =>
      obtain ⟨front, e, list⟩ : ∃ front e, cores map.root = front ++ [e] :=
        ⟨_, _, (List.dropLast_append_getLast empty).symm⟩
      have mem : e ∈ cores map.root := by simp [list]
      refine ⟨e.key, ⟨h.ne_none_iff.2 ⟨e, mem, rfl⟩, fun k there => ?_⟩, ?_⟩
      · obtain ⟨d, memD, rfl⟩ := h.ne_none_iff.1 there
        have growing := h.growing
        rw [list, growing_append_cons] at growing
        rw [list] at memD
        rcases List.mem_append.1 memD with earlier | last
        · exact (growing.2.2.1 d earlier).le
        · rw [List.mem_singleton.1 last]
      · rw [getEnd, endNode_right, h.eq_value mem, list, List.getLast?_concat]
        rfl

end

/-! ## Sequences of operations -/

inductive Op (K β : Type*) where
  | set (key : K) (value : Option β)
  | remove (key : K)
  | removeSmallest (key : K)
  | removeLargest (key : K)

def step (map : LongMap K β) : Op K β → Option (LongMap K β × Option β × K)
  | .set key value => (map.set key value).map fun (map, old) => (map, old, key)
  | .remove key => (map.remove key).map fun (map, old) => (map, old, key)
  | .removeSmallest key => map.removeSmallest key
  | .removeLargest key => map.removeLargest key

def run (map : LongMap K β) : List (Op K β) → Option (LongMap K β × List (Option β × K))
  | [] => some (map, [])
  | op :: ops => (map.step op).bind fun (map, out) => (run map ops).map fun (map, outs) => (map, out :: outs)

end LongMap

open LongMap (Op)

namespace Contents

variable [LinearOrder K]

inductive Step : Contents K β → Op K β → Option β × K → Contents K β → Prop
  | set (m : Contents K β) (key : K) (value : Option β) :
      Step m (.set key value) ((m key).join, key) (update m key (some value))
  | remove (m : Contents K β) (key : K) : Step m (.remove key) ((m key).join, key) (update m key none)
  | removeSmallest (m : Contents K β) (key k : K) (least : m.IsEnd .left k) :
      Step m (.removeSmallest key) ((m k).join, k) (update m k none)
  | removeLargest (m : Contents K β) (key k : K) (greatest : m.IsEnd .right k) :
      Step m (.removeLargest key) ((m k).join, k) (update m k none)
  | removeSmallestEmpty (m : Contents K β) (key : K) (empty : ∀ k, m k = none) :
      Step m (.removeSmallest key) (none, key) m
  | removeLargestEmpty (m : Contents K β) (key : K) (empty : ∀ k, m k = none) :
      Step m (.removeLargest key) (none, key) m

inductive Run : Contents K β → List (Op K β) → List (Option β × K) → Contents K β → Prop
  | nil (m : Contents K β) : Run m [] [] m
  | cons {m m' m'' : Contents K β} {op : Op K β} {ops : List (Op K β)} {out : Option β × K} {outs : List (Option β × K)}
      (first : Step m op out m') (rest : Run m' ops outs m'') : Run m (op :: ops) (out :: outs) m''

end Contents

namespace LongMap

variable [LinearOrder K] {map : LongMap K β} {m : Contents K β}

theorem Holds.removeEnd (h : Holds map m) (s : Side) (key : K) :
    (∀ k, m k = none) ∧ (∃ map', map.removeEnd s key = some (map', none, key) ∧ Holds map' m) ∨
      ∃ k map', m.IsEnd s k ∧ map.removeEnd s key = some (map', (m k).join, k) ∧ Holds map' (update m k none) := by
  rcases h.getEnd_eq s key with ⟨empty, stored⟩ | ⟨k, last, stored⟩
  · obtain ⟨map', removed, holds⟩ := h.remove key
    rw [empty key] at removed
    rw [← empty key, Function.update_eq_self] at holds
    refine .inl ⟨empty, map', ?_, holds⟩
    rw [LongMap.removeEnd, stored]
    dsimp only
    rw [removed]
    rfl
  · obtain ⟨map', removed, holds⟩ := h.remove k
    refine .inr ⟨k, map', last, ?_, holds⟩
    rw [LongMap.removeEnd, stored]
    dsimp only
    rw [removed]
    rfl

theorem Holds.step (h : Holds map m) (op : Op K β) :
    ∃ map' out m', map.step op = some (map', out) ∧ Contents.Step m op out m' ∧ Holds map' m' := by
  cases op with
  | set key value =>
    obtain ⟨map', done, holds⟩ := h.set key value
    exact ⟨map', _, _, by rw [LongMap.step, done]; rfl, .set m key value, holds⟩
  | remove key =>
    obtain ⟨map', done, holds⟩ := h.remove key
    exact ⟨map', _, _, by rw [LongMap.step, done]; rfl, .remove m key, holds⟩
  | removeSmallest key =>
    rcases h.removeEnd .left key with ⟨empty, map', done, holds⟩ | ⟨k, map', least, done, holds⟩
    · exact ⟨map', _, _, done, .removeSmallestEmpty m key empty, holds⟩
    · exact ⟨map', _, _, done, .removeSmallest m key k least, holds⟩
  | removeLargest key =>
    rcases h.removeEnd .right key with ⟨empty, map', done, holds⟩ | ⟨k, map', greatest, done, holds⟩
    · exact ⟨map', _, _, done, .removeLargestEmpty m key empty, holds⟩
    · exact ⟨map', _, _, done, .removeLargest m key k greatest, holds⟩

theorem Holds.run (h : Holds map m) (ops : List (Op K β)) :
    ∃ map' outs m', map.run ops = some (map', outs) ∧ Contents.Run m ops outs m' ∧ Holds map' m' := by
  induction ops generalizing map m with
  | nil => exact ⟨map, [], m, rfl, .nil m, h⟩
  | cons op ops ih =>
    obtain ⟨map', out, m', first, step, holds⟩ := h.step op
    obtain ⟨map'', outs, m'', rest, run, holds'⟩ := ih holds
    refine ⟨map'', out :: outs, m'', ?_, .cons step run, holds'⟩
    rw [LongMap.run, first, bind_some]
    dsimp only
    rw [rest]
    rfl

structure Shows (map : LongMap K β) (m : Contents K β) : Prop where
  get : ∀ key, map.get key = (m key).join
  count : map.numElements = {k | m k ≠ none}.ncard
  ascending : map.getSortedKeys.1.Pairwise (· < ·)
  complete : ∀ key, key ∈ map.getSortedKeys.1 ↔ m key ≠ none
  listed : map.getSortedKeys.2 = map.getSortedKeys.1.length
  smallest : ∀ key k, m.IsEnd .left k → map.getSmallest key = ((m k).join, k)
  largest : ∀ key k, m.IsEnd .right k → map.getLargest key = ((m k).join, k)
  empty : ∀ key, (∀ k, m k = none) → map.getSmallest key = (none, key) ∧ map.getLargest key = (none, key)
  balanced : IsBalanced map.root

theorem Holds.shows (h : Holds map m) : Shows map m := by
  have keys : map.getSortedKeys.1 = (cores map.root).map Entry.key := sortedNodeKeys_eq map.root []
  have complete : ∀ key, key ∈ map.getSortedKeys.1 ↔ m key ≠ none := by
    intro key
    rw [keys, h.ne_none_iff, List.mem_map]
  have ascending : map.getSortedKeys.1.Pairwise (· < ·) := by
    rw [keys, List.pairwise_map]
    exact h.growing
  have found : ∀ s key k, m.IsEnd s k → map.getEnd s key = ((m k).join, k) := by
    intro s key k last
    rcases h.getEnd_eq s key with ⟨empty, -⟩ | ⟨k', last', stored⟩
    · exact absurd (empty k) last.ne_none
    · rw [stored, last'.eq last]
  have missed : ∀ s key, (∀ k, m k = none) → map.getEnd s key = (none, key) := by
    intro s key empty
    rcases h.getEnd_eq s key with ⟨-, stored⟩ | ⟨k, last, -⟩
    · exact stored
    · exact absurd (empty k) last.ne_none
  refine ⟨h.get_eq, ?_, ascending, complete, ?_, found .left, found .right, fun key empty => ?_, h.balanced⟩
  · have set_eq : {k | m k ≠ none} = (map.getSortedKeys.1.toFinset : Set K) := by
      ext key
      rw [Finset.mem_coe, List.mem_toFinset, complete]
      rfl
    rw [set_eq, Set.ncard_coe_finset, List.toFinset_card_of_nodup (ascending.imp ne_of_lt), keys,
      List.length_map, h.count]
  · rw [keys, List.length_map, ← h.count]
    rfl
  · exact ⟨missed .left key empty, missed .right key empty⟩

/-- From the empty map on, every sequence of operations runs, returns what it would on a map, and leaves a balanced
tree that shows this map. -/
theorem exists_run_shows (ops : List (Op K β)) :
    ∃ map outs m, initializeLongMap.run ops = some (map, outs) ∧ Contents.Run (fun _ => none) ops outs m ∧
    Shows map m := by
  obtain ⟨map, outs, m, run, contents, holds⟩ := holds_initialize.run ops
  exact ⟨map, outs, m, run, contents, holds.shows⟩

end LongMap

end OpenWifi.Ericstools
