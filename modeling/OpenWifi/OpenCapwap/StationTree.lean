import OpenWifi.Lib.SearchTree
import OpenWifi.Lib.Steps
import Mathlib.Data.List.Lex
import Mathlib.Data.Vector.Basic

/-!
# The tree of stations

`CWAVL.c` keeps the stations of opencapwap in an AVL tree.  After a deletion the rotations are those of the other side,
so that a deletion that has to rotate fails at a `NULL` child or makes the tree worse.
-/

namespace OpenWifi.OpenCapwap

open List Option Zipper Avl

/-! ## Nodes -/

/-- `ETH_ALEN` bytes. -/
abbrev Address := List.Vector UInt8 6

/-- The loop of `compareEthAddr`. -/
def compareBytes : List UInt8 → List UInt8 → ℤ
  | x :: xs, y :: ys =>
    if x.toNat > y.toNat then 1
    else if x.toNat < y.toNat then -1
    else compareBytes xs ys
  | _, _ => 0

/-- `compareEthAddr`. -/
def compareEthAddr (staAddr AVLaddr : Address) : ℤ := compareBytes staAddr.toList AVLaddr.toList

/-- `nodeAVL` without the links and the height. -/
structure Station where
  staAddr : Address
  index : ℤ
  radioID : ℤ
  BSSID : Address
  deriving DecidableEq

/-- The tree that a `nodeAVL *` points to. -/
abbrev StationTree := HTree Station

namespace StationTree

/-- `AVLfind` with an address. -/
def findAt (staAddr : Address) : StationTree → Option Station
  | .nil => none
  | .node v l r =>
    if compareEthAddr staAddr v.core.staAddr < 0 then findAt staAddr l
    else if 0 < compareEthAddr staAddr v.core.staAddr then findAt staAddr r
    else some v.core

/-- `AVLfind`; the address is `none` for `NULL`. -/
def find (staAddr : Option Address) (t : StationTree) : Option Station := staAddr.bind (findAt · t)

/-- A rotation with the child on the side `s`; `none` when the child is `NULL` and is dereferenced. -/
def singleRotateWith (s : Side) (t : StationTree) : Option StationTree :=
  match t, child s t with
  | .node k2 _ _, .node k1 l r =>
    some (mk s k1.core (child s (.node k1 l r)) (mk s k2.core (child s.flip (.node k1 l r)) (child s.flip t)))
  | _, _ => none

/-- `AVLsingle_rotate_with_left`. -/
def singleRotateWithLeft : StationTree → Option StationTree := singleRotateWith .left

/-- `AVLsingle_rotate_with_right`. -/
def singleRotateWithRight : StationTree → Option StationTree := singleRotateWith .right

/-- The double rotation with the child on the side `s`. -/
def doubleRotateWith (s : Side) : StationTree → Option StationTree
  | .nil => none
  | .node k3 l r =>
    (singleRotateWith s.flip (child s (.node k3 l r))).bind fun raised =>
      singleRotateWith s (join s k3 raised (child s.flip (.node k3 l r)))

/-- `AVLdouble_rotate_with_left`. -/
def doubleRotateWithLeft : StationTree → Option StationTree := doubleRotateWith .left

/-- `AVLdouble_rotate_with_right`. -/
def doubleRotateWithRight : StationTree → Option StationTree := doubleRotateWith .right

/-- What `AVLinsert` is called with.  `malloc` is what is in the memory for the BSSID of a new node, `none` when there
is no memory. -/
structure Insertion where
  index : ℤ
  staAddr : Address
  BSSID : Option Address
  radioID : ℤ
  malloc : Option Address

def Insertion.station (new : Insertion) : Option Station :=
  new.malloc.map fun bytes => ⟨new.staAddr, new.index, new.radioID, new.BSSID.getD bytes⟩

/-- The address goes to the side `s` of the other one. -/
def Toward (s : Side) (staAddr AVLaddr : Address) : Prop :=
  match s with
  | .left => compareEthAddr staAddr AVLaddr < 0
  | .right => 0 < compareEthAddr staAddr AVLaddr

instance (s : Side) (staAddr AVLaddr : Address) : Decidable (Toward s staAddr AVLaddr) :=
  match s with
  | .left => inferInstanceAs (Decidable (_ < _))
  | .right => inferInstanceAs (Decidable (_ < _))

/-- The part of `AVLinsert` behind the insertion in the subtree on the side `s`. -/
def rebalanceInserted (s : Side) (staAddr : Address) (t : StationTree) : Option StationTree :=
  if ht (child s t) - ht (child s.flip t) = 2 then
    match child s t with
    | .nil => none
    | .node w _ _ =>
      (if Toward s staAddr w.core.staAddr then singleRotateWith s t else doubleRotateWith s t).map refresh
  else some (refresh t)

/-- `AVLinsert` with an address. -/
def insertAt (new : Insertion) : StationTree → Option StationTree
  | .nil =>
    match new.station with
    | none => some .nil
    | some station => some (.node ⟨station, 0⟩ .nil .nil)
  | .node v l r =>
    if compareEthAddr new.staAddr v.core.staAddr < 0 then
      (insertAt new l).bind fun l => rebalanceInserted .left new.staAddr (.node v l r)
    else if 0 < compareEthAddr new.staAddr v.core.staAddr then
      (insertAt new r).bind fun r => rebalanceInserted .right new.staAddr (.node v l r)
    else some (refresh (.node v l r))

/-! ## Deletion -/

/-- `AVLminValueNode`; `none` for `NULL`. -/
def minValueNode : StationTree → Option Station
  | .nil => none
  | .node v .nil _ => some v.core
  | .node _ l _ => minValueNode l

/-- `AVLgetBalance`. -/
def getBalance : StationTree → ℤ
  | .nil => 0
  | .node _ l r => ht l - ht r

/-- The steps 2 and 3 of `AVLdeleteNode`.  The left subtree is the higher one in the first two cases, and what is
raised is the right child. -/
def rebalanceDeleted : StationTree → Option StationTree
  | .nil => some .nil
  | .node v l r =>
    let root := refresh (.node v l r)
    let balance := getBalance root
    if 1 < balance ∧ 0 ≤ getBalance l then singleRotateWithRight root
    else if 1 < balance ∧ getBalance l < 0 then
      (singleRotateWithLeft l).bind fun l => singleRotateWithRight (.node v l r)
    else if balance < -1 ∧ getBalance r ≤ 0 then singleRotateWithLeft root
    else if balance < -1 ∧ 0 < getBalance r then
      (singleRotateWithRight r).bind fun r => singleRotateWithLeft (.node v l r)
    else some root

/-- The part of `AVLdeleteNode` for the node itself, up to step 3: the only child takes its place, or the station behind
it, which `deleteNext` deletes from the right subtree. -/
def deleteRoot (height : ℤ) (l r : StationTree) (deleteNext : Station → Option StationTree) : Option StationTree :=
  match l, r with
  | .nil, temp => rebalanceDeleted temp
  | temp, .nil => rebalanceDeleted temp
  | l, r =>
    (minValueNode r).bind fun temp => (deleteNext temp).bind fun r => rebalanceDeleted (.node ⟨temp, height⟩ l r)

/-- `AVLdeleteNode` with an address. -/
def deleteAt : StationTree → Address → ℤ → Option StationTree
  | .nil, _, _ => some .nil
  | .node v l r, staAddr, radioID =>
    if compareEthAddr staAddr v.core.staAddr < 0 then
      (deleteAt l staAddr radioID).bind fun l => rebalanceDeleted (.node v l r)
    else if 0 < compareEthAddr staAddr v.core.staAddr then
      (deleteAt r staAddr radioID).bind fun r => rebalanceDeleted (.node v l r)
    else if v.core.radioID = radioID then
      deleteRoot v.height l r fun temp => deleteAt r temp.staAddr temp.radioID
    else rebalanceDeleted (.node v l r)

/-- A call that changes the tree; an address is `none` for `NULL`. -/
inductive Call
  | insert (index : ℤ) (staAddr BSSID : Option Address) (radioID : ℤ) (malloc : Option Address)
  | delete (staAddr : Option Address) (radioID : ℤ)

/-- `AVLinsert` and `AVLdeleteNode`, both of which return `NULL` for no address. -/
def call (t : StationTree) : Call → Option StationTree
  | .insert _ none _ _ _ => some .nil
  | .insert index (some staAddr) BSSID radioID malloc => insertAt ⟨index, staAddr, BSSID, radioID, malloc⟩ t
  | .delete none _ => some .nil
  | .delete (some staAddr) radioID => deleteAt t staAddr radioID

/-! ## The order of the addresses -/

def addressKey (a : Address) : List ℕ := a.toList.map UInt8.toNat

def stationKey (station : Station) : List ℕ := addressKey station.staAddr

theorem addressKey_injective : Function.Injective addressKey := by
  intro a b same
  exact List.Vector.toList_injective (map_injective_iff.2 (fun x y => UInt8.toNat.inj) same)

theorem compareBytes_cases : ∀ xs ys : List UInt8, xs.length = ys.length →
    (compareBytes xs ys < 0 ↔ xs.map UInt8.toNat < ys.map UInt8.toNat) ∧
      (0 < compareBytes xs ys ↔ ys.map UInt8.toNat < xs.map UInt8.toNat)
  | [], [], _ => by simp [compareBytes]
  | x :: xs, y :: ys, same => by
    have rest := compareBytes_cases xs ys (by simpa using same)
    simp only [compareBytes, map_cons, cons_lt_cons_iff]
    rcases lt_trichotomy x.toNat y.toNat with lower | equal | higher
    · rw [if_neg lower.not_gt, if_pos lower]
      simp [lower, lower.not_gt, lower.ne']
    · rw [if_neg (by omega), if_neg (by omega)]
      simp [equal, rest]
    · rw [if_pos higher]
      simp [higher, higher.not_gt, higher.ne']

theorem compareEthAddr_neg {a b : Address} : compareEthAddr a b < 0 ↔ addressKey a < addressKey b :=
  (compareBytes_cases _ _ (by simp)).1

theorem compareEthAddr_pos {a b : Address} : 0 < compareEthAddr a b ↔ addressKey b < addressKey a :=
  (compareBytes_cases _ _ (by simp)).2

theorem toward_or_eq (a b : Address) : (∃ s, Toward s a b) ∨ a = b := by
  rcases lt_trichotomy (addressKey a) (addressKey b) with lower | equal | higher
  · exact .inl ⟨.left, compareEthAddr_neg.2 lower⟩
  · exact .inr (addressKey_injective equal)
  · exact .inl ⟨.right, compareEthAddr_pos.2 higher⟩

variable {t u l r : StationTree} {v w : Label Station} {s : Side} {a b : Address}

theorem Toward.asymm (h : Toward s a b) : ¬ Toward s.flip a b := by
  cases s
  · exact fun other => lt_asymm h other
  · exact fun other => lt_asymm h other

theorem Toward.ne (toward : Toward s a b) : b ≠ a := by
  rintro rfl
  cases s
  · exact lt_irrefl _ (compareEthAddr_neg.1 toward)
  · exact lt_irrefl _ (compareEthAddr_pos.1 toward)

theorem Toward.branch {β : Type} (toward : Toward s a b) (x y z : β) :
    (if compareEthAddr a b < 0 then x else if 0 < compareEthAddr a b then y else z) =
      match s with | .left => x | .right => y := by
  cases s
  · exact if_pos toward
  · exact (if_neg (lt_asymm toward)).trans (if_pos toward)

theorem branch_self {β : Type} (a : Address) (x y z : β) :
    (if compareEthAddr a a < 0 then x else if 0 < compareEthAddr a a then y else z) = z := by
  rw [if_neg fun neg => lt_irrefl _ (compareEthAddr_neg.1 neg), if_neg fun pos =>
    lt_irrefl _ (compareEthAddr_pos.1 pos)]

/-- Induction along the way to an address. -/
theorem toward_induction {motive : StationTree → Prop} (a : Address) (nil : motive .nil)
    (child : ∀ s v l r, Toward s a v.core.staAddr → motive l → motive (join s v l r))
    (root : ∀ v l r, v.core.staAddr = a → motive (.node v l r)) (t : StationTree) : motive t := by
  induction t with
  | nil => exact nil
  | node v l r ihl ihr =>
    rcases toward_or_eq a v.core.staAddr with ⟨_ | _, toward⟩ | same
    · exact child .left v l r toward ihl
    · exact child .right v r l toward ihr
    · exact root v l r same.symm

theorem Ordered.child (ordered : Ordered stationKey (join s v l r)) : Ordered stationKey l := by
  cases s
  · exact (ordered_node.1 ordered).1
  · exact (ordered_node.1 ordered).2.1

theorem findAt_eq (ordered : Ordered stationKey t) (a : Address) :
    findAt a t = lookup stationKey (cores t) (addressKey a) := by
  induction t using toward_induction (a := a) with
  | nil => rfl
  | child s v l r toward ih =>
    rw [show findAt a (join s v l r) = findAt a l by cases s <;> exact toward.branch _ _ _, ih (Ordered.child ordered)]
    cases s
    · exact ((ordered.lookup_node _).trans (if_pos (compareEthAddr_neg.1 toward))).symm
    · have higher := compareEthAddr_pos.1 toward
      exact ((ordered.lookup_node _).trans ((if_neg higher.not_gt).trans (if_pos higher))).symm
  | root v l r same =>
    subst same
    rw [findAt, branch_self, ordered.lookup_node]
    exact ((if_neg (lt_irrefl _)).trans (if_neg (lt_irrefl _))).symm

theorem toward_of_mem (ordered : Ordered stationKey (join s w l r)) {c : Station} (mem : c ∈ cores l) :
    Toward s c.staAddr w.core.staAddr := by
  cases s
  · exact compareEthAddr_neg.2 ((ordered_node.1 ordered).2.2.1 c mem)
  · exact compareEthAddr_pos.2 ((ordered_node.1 ordered).2.2.2 c mem)

theorem mem_join {c : Station} (ordered : Ordered stationKey (join s v l r))
    (toward : Toward s c.staAddr v.core.staAddr) :
    c ∈ cores (join s v l r) ↔ c ∈ cores l := by
  refine ⟨fun mem => ?_, fun mem => mem_cores_join.2 (.inr (.inl mem))⟩
  rcases mem_cores_join.1 mem with rfl | mem | mem
  · exact absurd rfl toward.ne
  · exact mem
  · exact absurd (toward_of_mem (s := s.flip) (by rwa [join_flip]) mem) toward.asymm

theorem Adds.join {c : Station} (adds : Adds c (cores l) (cores u)) (s : Side) (v : Label Station) (r : StationTree) :
    Adds c (cores (join s v l r)) (cores (join s v u r)) := by
  cases s
  · rw [cores_join_left, cores_join_left]
    exact adds.append_right _
  · rw [cores_join_right, cores_join_right]
    exact (adds.append_left [v.core]).append_left _

/-! ## Balancing after an insertion -/

theorem singleRotateWith_join (s : Side) (x y : Label Station) (a b c : StationTree) :
    singleRotateWith s (join s x (join s y a b) c) = some (mk s y.core a (mk s x.core b c)) := by
  cases s <;> rfl

theorem doubleRotateWith_join (s : Side) (x y z : Label Station) (a p q c : StationTree) :
    doubleRotateWith s (join s x (join s y a (join s z p q)) c) =
      some (mk s z.core (mk s y.core a p) (mk s x.core q c)) := by
  have inner := singleRotateWith_join s.flip y z q p a
  rw [join_flip, join_flip, mk_flip, mk_flip] at inner
  have children : doubleRotateWith s (join s x (join s y a (join s z p q)) c) =
      (singleRotateWith s.flip (join s y a (join s z p q))).bind fun raised => singleRotateWith s
      (join s x raised c) := by
    cases s <;> rfl
  rw [children, inner]
  exact singleRotateWith_join s x _ _ q c

def Leans (a : Address) (t : StationTree) : Prop :=
  ∃ s w l r, t = join s w l r ∧ Toward s a w.core.staAddr ∧ ht r < ht l

theorem rotate_eq_lift {b c : StationTree} (leans : Leans a (join s w b c)) (x : Label Station) (r : StationTree)
    (nonneg : Nonneg (join s w b c)) : (if Toward s a w.core.staAddr then singleRotateWith s (join s x (join s w b c) r)
      else doubleRotateWith s (join s x (join s w b c) r)) = some (lift s (join s x (join s w b c) r)) := by
  obtain ⟨d, w', l, r', same, toward, higher⟩ := leans
  rcases Side.eq_or_eq_flip s d with rfl | rfl
  · obtain ⟨rfl, rfl, rfl⟩ := join_inj same
    rw [if_pos toward, singleRotateWith_join, lift_single higher.le]
  · rw [← join_flip s.flip, Side.flip_flip] at same
    obtain ⟨rfl, rfl, rfl⟩ := join_inj same
    rw [if_neg fun other => toward.asymm (by rwa [Side.flip_flip])]
    have low := (nonneg_join.1 nonneg).2.1.ht_ge
    rcases eq_nil_or_join s c with rfl | ⟨z, p, q, rfl⟩
    · rw [ht_nil] at higher
      omega
    · rw [doubleRotateWith_join, lift_double (by rwa [ht_join] at higher)]

theorem Leans.lean_ne_zero {b c : StationTree} (leans : Leans a (join s w b c)) : lean s (join s w b c) ≠ 0 := by
  obtain ⟨d, w', l, r', same, -, higher⟩ := leans
  rcases Side.eq_or_eq_flip s d with rfl | rfl
  · obtain ⟨rfl, rfl, rfl⟩ := join_inj same
    rw [lean, child_join, child_flip_join]
    omega
  · rw [← join_flip s.flip, Side.flip_flip] at same
    obtain ⟨rfl, rfl, rfl⟩ := join_inj same
    rw [lean, child_join, child_flip_join]
    omega

def Grown (a : Address) (height : ℤ) (u : StationTree) : Prop :=
  ht u = height ∨ ht u = height + 1 ∧ (ht u = 0 ∨ Leans a u)

theorem rebalanceInserted_spec {l' : StationTree} (avl : IsAvl (join s v l r)) (avl' : IsAvl l')
    (toward : Toward s a v.core.staAddr) (grown : Grown a (ht l) l') :
    ∃ u, rebalanceInserted s a (join s v l' r) = some u ∧ IsAvl u ∧ cores u = cores (join s v l' r) ∧
      Grown a v.height u := by
  obtain ⟨height, balance, -, avlR⟩ := isAvl_join.1 avl
  have lowR := avlR.nonneg.ht_ge
  simp only [rebalanceInserted, child_join, child_flip_join]
  by_cases two : ht l' - ht r = 2
  · rw [if_pos two]
    rcases grown with same | ⟨higher, zero | leans⟩
    · omega
    · omega
    · rcases eq_nil_or_join s l' with rfl | ⟨w, b, c, rfl⟩
      · rw [ht_nil] at two
        omega
      · have heavy : HeavyForm s (join s v (join s w b c) r) := by
          refine heavyForm (nonneg_join.2 ⟨?_, avl'.nonneg, avlR.nonneg⟩) ?_
          · omega
          · rw [lean, child_join, child_flip_join]
            omega
        obtain ⟨avlLift, heightLift⟩ := isAvl_lift (s := s) (x := v) avl' avlR (by omega)
        refine ⟨lift s (join s v (join s w b c) r), ?_, avlLift, cores_lift heavy, .inl ?_⟩
        · have matched : ∀ f : Label Station → Option StationTree,
              (match join s w b c with | .nil => none | .node w _ _ => f w) = f w := by
            cases s <;> intro f <;> rfl
          rw [matched, rotate_eq_lift leans v r avl'.nonneg, map_some, refresh_lift heavy]
        · rw [heightLift, if_neg leans.lean_ne_zero]
          omega
  · rw [if_neg two, refresh_join]
    refine ⟨_, rfl, isAvl_mk.2 ⟨?_, avl', avlR⟩, ?_, ?_⟩
    · rcases grown with same | ⟨higher, -⟩ <;> omega
    · cases s <;> simp [mk, cores_join_left, cores_join_right]
    · rw [Grown, ht_mk]
      rcases grown with same | ⟨higher, -⟩
      · omega
      · by_cases more : ht r < ht l'
        · by_cases same : max (ht l') (ht r) + 1 = v.height
          · exact .inl same
          · exact .inr ⟨by omega, .inr ⟨s, _, l', r, rfl, toward, more⟩⟩
        · omega

/-! ## Insertion in the tree -/

theorem refresh_of_isAvl (avl : IsAvl t) : refresh t = t := by
  cases t with
  | nil => rfl
  | node v l r => rw [refresh, mk, ← avl.1]; rfl

theorem rebalanceInserted_of_isAvl (avl : IsAvl (join s v l r)) (a : Address) :
    rebalanceInserted s a (join s v l r) = some (join s v l r) := by
  obtain ⟨-, balance, -⟩ := isAvl_join.1 avl
  rw [rebalanceInserted, child_join, child_flip_join, if_neg (by omega), refresh_of_isAvl avl]

variable {c : Station} {new : Insertion}

theorem insertAt_join (toward : Toward s new.staAddr v.core.staAddr) :
    insertAt new (join s v l r) = (insertAt new l).bind fun l => rebalanceInserted s new.staAddr (join s v l r) := by
  cases s <;> exact toward.branch _ _ _

theorem insertAt_root (same : v.core.staAddr = new.staAddr) :
    insertAt new (.node v l r) = some (refresh (.node v l r)) := by
  rw [insertAt, same, branch_self]

theorem nothing_child (ordered : Ordered stationKey (join s v l r)) (toward : Toward s new.staAddr v.core.staAddr)
    (nothing : new.station = none ∨ ∃ c ∈ cores (join s v l r), c.staAddr = new.staAddr) :
    new.station = none ∨ ∃ c ∈ cores l, c.staAddr = new.staAddr := by
  refine nothing.imp_right ?_
  rintro ⟨c, mem, own⟩
  exact ⟨c, (mem_join ordered (own ▸ toward)).1 mem, own⟩

theorem insertAt_unchanged (avl : IsAvl t) (ordered : Ordered stationKey t)
    (nothing : new.station = none ∨ ∃ c ∈ cores t, c.staAddr = new.staAddr) : insertAt new t = some t := by
  induction t using toward_induction (a := new.staAddr) with
  | nil =>
    rcases nothing with none | ⟨c, mem, -⟩
    · rw [insertAt, none]
    · exact absurd mem not_mem_nil
  | child s v l r toward ih =>
    rw [insertAt_join toward,
      ih (isAvl_join.1 avl).2.2.1 (Ordered.child ordered) (nothing_child ordered toward nothing)]
    exact rebalanceInserted_of_isAvl avl _
  | root v l r same => rw [insertAt_root same, refresh_of_isAvl avl]

theorem Ordered.insert (ordered : Ordered stationKey (join s v l r)) (ordered' : Ordered stationKey u)
    (adds : Adds c (cores l) (cores u))
    (toward : Toward s c.staAddr v.core.staAddr) : Ordered stationKey (join s v u r) := by
  cases s
  · obtain ⟨-, right, lower, upper⟩ := ordered_node.1 ordered
    refine ordered_node.2 ⟨ordered', right, fun d mem => ?_, upper⟩
    exact (adds.mem_iff.1 mem).elim (fun eq => eq ▸ compareEthAddr_neg.1 toward) (lower d)
  · obtain ⟨left, -, lower, upper⟩ := ordered_node.1 ordered
    refine ordered_node.2 ⟨left, ordered', lower, fun d mem => ?_⟩
    exact (adds.mem_iff.1 mem).elim (fun eq => eq ▸ compareEthAddr_pos.1 toward) (upper d)

/-- Insertion of a station that is not in the tree, along the way to its place: a property `P` of the subtrees that
makes the rebalancing succeed, and what `Q` says of a subtree and the one with the new station. -/
theorem insertAt_rule {P : StationTree → Prop} {Q : StationTree → StationTree → Prop}
    (station : new.station = some c) (leaf : Q .nil (.node ⟨c, 0⟩ .nil .nil))
    (inherits : ∀ s v l r, P (join s v l r) → P l)
    (step : ∀ s v l r l', P (join s v l r) → Toward s c.staAddr v.core.staAddr → Ordered stationKey l' →
      c ∈ cores l' → Q l l' →
      ∃ u, rebalanceInserted s c.staAddr (join s v l' r) = some u ∧ cores u = cores (join s v l' r) ∧
      Q (join s v l r) u)
    (start : P t) (ordered : Ordered stationKey t) (fresh : ∀ d ∈ cores t, d.staAddr ≠ new.staAddr) :
    ∃ u, insertAt new t = some u ∧ Ordered stationKey u ∧ Adds c (cores t) (cores u) ∧ Q t u := by
  have own : c.staAddr = new.staAddr := by
    obtain ⟨bytes, -, rfl⟩ := map_eq_some_iff.1 station
    rfl
  rw [← own] at fresh
  induction t using toward_induction (a := c.staAddr) with
  | nil =>
    refine ⟨.node ⟨c, 0⟩ .nil .nil, by rw [insertAt, station], ?_, ⟨[], [], rfl, rfl⟩, leaf⟩
    exact ordered_node.2 ⟨List.Pairwise.nil, List.Pairwise.nil, nofun, nofun⟩
  | child s v l r toward ih =>
    obtain ⟨l', inserted, ordered', adds, kept⟩ :=
      ih (inherits s v l r start) (Ordered.child ordered) fun d mem => fresh d (mem_cores_join.2 (.inr (.inl mem)))
    obtain ⟨u, balanced, coresU, keptU⟩ := step s v l r l' start toward ordered' (adds.mem_iff.2 (.inl rfl)) kept
    refine ⟨u, ?_, ?_, ?_, keptU⟩
    · rw [insertAt_join (own ▸ toward), inserted, ← own]
      exact balanced
    · rw [Ordered, coresU]
      exact Ordered.insert ordered ordered' adds toward
    · rw [coresU]
      exact Adds.join adds s v r
  | root v l r same => exact absurd same (fresh v.core (by simp))

theorem insertAt_new (avl : IsAvl t) (ordered : Ordered stationKey t)
    (station : new.station = some c) (fresh : ∀ d ∈ cores t, d.staAddr ≠ new.staAddr) :
    ∃ u, insertAt new t = some u ∧ Ordered stationKey u ∧ Adds c (cores t) (cores u) ∧ IsAvl u ∧
      Grown c.staAddr (ht t) u := by
  refine insertAt_rule (P := IsAvl) (Q := fun t u => IsAvl u ∧ Grown c.staAddr (ht t) u) station
    ⟨⟨by simp, by simp, trivial, trivial⟩, .inr ⟨rfl, .inl rfl⟩⟩ (fun s v l r avl => (isAvl_join.1 avl).2.2.1)
    (fun s v l r l' avl toward _ _ kept => ?_) avl ordered fresh
  obtain ⟨u, balanced, avlU, coresU, grownU⟩ := rebalanceInserted_spec avl kept.1 toward kept.2
  exact ⟨u, balanced, coresU, avlU, by rwa [ht_join]⟩

/-! ## Deletion without rotations -/

/-- The heights of the subtree on the way and of the other one, from the root to the node that is taken out. -/
def way : StationTree → Address → List (ℤ × ℤ)
  | .nil, _ => []
  | .node v l r, staAddr =>
    if compareEthAddr staAddr v.core.staAddr < 0 then (ht l, ht r) :: way l staAddr
    else if 0 < compareEthAddr staAddr v.core.staAddr then (ht r, ht l) :: way r staAddr
    else if l = .nil then []
    else (minValueNode r).elim [] fun next => (ht r, ht l) :: way r next.staAddr

def Lowered (heights : List (ℤ × ℤ)) : Prop := ∀ p ∈ heights, p.2 < p.1
  deriving Decidable

/-- Where the subtree on the way gets lower, it is not the lower one already. -/
def Absorbed : List (ℤ × ℤ) → Prop
  | [] => True
  | p :: below => Absorbed below ∧ (Lowered below → p.2 ≤ p.1)

instance decidableAbsorbed : (heights : List (ℤ × ℤ)) → Decidable (Absorbed heights)
  | [] => isTrue trivial
  | _ :: below =>
    have := decidableAbsorbed below
    inferInstanceAs (Decidable (_ ∧ (_ → _)))

theorem rebalanceDeleted_level (v : Label Station) (level : -1 ≤ ht l - ht r ∧ ht l - ht r ≤ 1) :
    rebalanceDeleted (join s v l r) = some (mk s v.core l r) := by
  have level_node {l r : StationTree} (level : -1 ≤ ht l - ht r ∧ ht l - ht r ≤ 1) :
      rebalanceDeleted (.node v l r) = some (mk .left v.core l r) := by
    have balance : getBalance (refresh (.node v l r)) = ht l - ht r := rfl
    simp only [rebalanceDeleted, balance]
    rw [if_neg (by omega), if_neg (by omega), if_neg (by omega), if_neg (by omega)]
    rfl
  cases s with
  | left => exact level_node level
  | right => exact (level_node (by omega)).trans (congrArg some (mk_flip .right v.core r l))

theorem rebalanceDeleted_of_isAvl (avl : IsAvl t) : rebalanceDeleted t = some t := by
  rcases eq_nil_or_join .left t with rfl | ⟨v, l, r, rfl⟩
  · rfl
  · obtain ⟨-, level, -⟩ := isAvl_join.1 avl
    rw [rebalanceDeleted_level v level, ← refresh_join, refresh_of_isAvl avl]

theorem rebalanceDeleted_spec {l' : StationTree} {below : List (ℤ × ℤ)} (avl : IsAvl (join s v l r)) (avl' : IsAvl l')
    (height : ht l' = if Lowered below then ht l - 1 else ht l) (absorbed : Absorbed ((ht l, ht r) :: below))
    (c : Station) :
    ∃ u, rebalanceDeleted (join s ⟨c, v.height⟩ l' r) = some u ∧ IsAvl u ∧ cores u = cores (join s ⟨c, v.height⟩ l' r) ∧
      ht u = if Lowered ((ht l, ht r) :: below) then v.height - 1 else v.height := by
  obtain ⟨stored, balance, -, avlR⟩ := isAvl_join.1 avl
  have higher : Lowered below → ht r ≤ ht l := absorbed.2
  have level : -1 ≤ ht l' - ht r ∧ ht l' - ht r ≤ 1 := by
    split_ifs at height with low
    · have := higher low
      omega
    · omega
  refine ⟨_, rebalanceDeleted_level _ level, isAvl_mk.2 ⟨level, avl', avlR⟩, ?_, ?_⟩
  · cases s <;> simp [mk, cores_join_left, cores_join_right]
  · have lowered : Lowered ((ht l, ht r) :: below) ↔ ht r < ht l ∧ Lowered below := forall_mem_cons
    rw [ht_mk]
    simp only [lowered]
    by_cases low : Lowered below
    · have := higher low
      rw [if_pos low] at height
      simp only [low, and_true]
      split_ifs <;> omega
    · rw [if_neg low] at height
      rw [if_neg fun both => low both.2]
      omega

/-! ## Deletion in the tree -/

theorem minValueNode_eq (t : StationTree) : minValueNode t = (cores t).head? := by
  induction t with
  | nil => rfl
  | node v l r ihl _ =>
    cases l with
    | nil => rfl
    | node w a b =>
      rw [minValueNode, ihl, cores_node, cores_node]
      · simp
      · exact nofun

theorem deleteAt_join {radioID : ℤ} (toward : Toward s a v.core.staAddr) :
    deleteAt (join s v l r) a radioID = (deleteAt l a radioID).bind fun l => rebalanceDeleted (join s v l r) := by
  cases s <;> exact toward.branch _ _ _

theorem deleteAt_root (radioID : ℤ) : deleteAt (.node v l r) v.core.staAddr radioID =
    if v.core.radioID = radioID then deleteRoot v.height l r fun temp => deleteAt r temp.staAddr temp.radioID
    else rebalanceDeleted (.node v l r) :=
  branch_self ..

theorem deleteAt_unchanged {radioID : ℤ} (avl : IsAvl t) (ordered : Ordered stationKey t)
    (nothing : ∀ c ∈ cores t, c.staAddr = a → c.radioID ≠ radioID) : deleteAt t a radioID = some t := by
  induction t using toward_induction (a := a) with
  | nil => rfl
  | child s v l r toward ih =>
    rw [deleteAt_join toward, ih (isAvl_join.1 avl).2.2.1 (Ordered.child ordered) fun c mem =>
      nothing c (mem_cores_join.2 (.inr (.inl mem)))]
    exact rebalanceDeleted_of_isAvl avl
  | root v l r same =>
    subst same
    rw [deleteAt_root, if_neg (nothing v.core (by simp) rfl), rebalanceDeleted_of_isAvl avl]

def Deletes (t : StationTree) (c : Station) (result : Option StationTree) : Prop :=
  ∃ u, result = some u ∧ IsAvl u ∧ Adds c (cores u) (cores t) ∧
  ht u = if Lowered (way t c.staAddr) then ht t - 1 else ht t

theorem way_join (toward : Toward s a v.core.staAddr) : way (join s v l r) a = (ht l, ht r) :: way l a := by
  cases s <;> exact toward.branch _ _ _

theorem way_root : way (.node v l r) v.core.staAddr =
    if l = .nil then [] else (minValueNode r).elim [] fun next => (ht r, ht l) :: way r next.staAddr :=
  branch_self ..

theorem exists_next (w : Label Station) (l r : StationTree) :
    ∃ next rest, cores (.node w l r) = next :: rest ∧ minValueNode (.node w l r) = some next := by
  obtain ⟨next, rest, list⟩ : ∃ next rest, cores (.node w l r) = next :: rest := exists_cons_of_ne_nil (by simp)
  exact ⟨next, rest, list, by rw [minValueNode_eq, list]; rfl⟩

theorem Adds.of_first {list rest : List Station} (adds : Adds c list (c :: rest))
    (growing : Growing stationKey (c :: rest)) : list = rest := by
  obtain ⟨front, back, rfl, split⟩ := adds
  cases front with
  | nil => exact (List.cons.inj split).2.symm
  | cons d front =>
    cases split
    have later := (pairwise_cons.1 growing).1 c (by simp)
    exact absurd later (lt_irrefl _)

theorem deleteRoot_both {h : ℤ} {w z : Label Station} {x y p q : StationTree} {next : Station}
    {deleteNext : Station → Option StationTree} (found : minValueNode (.node z p q) = some next) :
    deleteRoot h (.node w x y) (.node z p q) deleteNext =
      (deleteNext next).bind fun r => rebalanceDeleted (.node ⟨next, h⟩ (.node w x y) r) := by
  show (minValueNode (.node z p q)).bind _ = _
  rw [found]
  rfl

theorem deletes_root (avl : IsAvl (.node v l r)) (ordered : Ordered stationKey (.node v l r))
    (deleteNext : Station → Option StationTree)
    (right : ∀ next ∈ cores r, Absorbed (way r next.staAddr) → Deletes r next (deleteNext next))
    (absorbed : Absorbed (way (.node v l r) v.core.staAddr)) :
    Deletes (.node v l r) v.core (deleteRoot v.height l r deleteNext) := by
  obtain ⟨stored, balance, avlL, avlR⟩ := id avl
  have lowL := avlL.nonneg.ht_ge
  have lowR := avlR.nonneg.ht_ge
  have height : ht (.node v l r) = v.height := rfl
  have way_eq := way_root (v := v) (l := l) (r := r)
  have lowered_nil : Lowered [] := by simp [Lowered]
  rw [Deletes]
  cases l with
  | nil =>
    refine ⟨r, rebalanceDeleted_of_isAvl avlR, avlR, ⟨[], cores r, rfl, rfl⟩, ?_⟩
    rw [ht_nil] at stored balance
    rw [way_eq.trans (if_pos rfl), if_pos lowered_nil, height]
    omega
  | node w x y =>
    cases r with
    | nil =>
      refine ⟨.node w x y, rebalanceDeleted_of_isAvl avlL, avlL, ⟨cores (.node w x y), [], by simp, by simp⟩, ?_⟩
      rw [ht_nil] at stored balance
      have leaf : 0 ≤ ht (.node w x y) := by
        have := avlL.2.2.1.nonneg.ht_ge
        have stored : ht (.node w x y) = max (ht x) (ht y) + 1 := avlL.1
        omega
      rw [way_eq.trans (if_neg (by simp)), minValueNode, elim_none, if_pos lowered_nil, height]
      omega
    | node z p q =>
      obtain ⟨next, rest, list, found⟩ := exists_next z p q
      rw [if_neg (by simp), found, elim_some] at way_eq
      rw [way_eq] at absorbed ⊢
      obtain ⟨r', deleted, avl', adds, height'⟩ := right next (by simp [list]) absorbed.1
      obtain ⟨u, balanced, avlU, coresU, heightU⟩ :=
        rebalanceDeleted_spec (show IsAvl (join .right v (.node z p q) (.node w x y)) from avl) avl'
          height' absorbed next
      refine ⟨u, ?_, avlU, ?_, heightU⟩
      · rw [deleteRoot_both found, deleted]
        exact balanced
      · have growing : Growing stationKey (next :: rest) := list ▸ (ordered_node.1 ordered).2.1
        rw [list] at adds
        rw [coresU, cores_join_right, cores_node v, list, Adds.of_first adds growing]
        exact ⟨cores (.node w x y), next :: rest, rfl, rfl⟩

theorem Deletes.child (avl : IsAvl (join s v l r)) (toward : Toward s c.staAddr v.core.staAddr)
    (absorbed : Absorbed ((ht l, ht r) :: way l c.staAddr)) (deletes : Deletes l c (deleteAt l c.staAddr c.radioID)) :
    Deletes (join s v l r) c (deleteAt (join s v l r) c.staAddr c.radioID) := by
  obtain ⟨l', deleted, avl', adds, height⟩ := deletes
  obtain ⟨u, balanced, avlU, coresU, heightU⟩ := rebalanceDeleted_spec avl avl' height absorbed v.core
  refine ⟨u, by rw [deleteAt_join toward, deleted]; exact balanced, avlU, ?_, ?_⟩
  · rw [coresU]
    exact Adds.join adds s v r
  · rwa [way_join toward, ht_join]

theorem deletes_present (avl : IsAvl t) (ordered : Ordered stationKey t) (mem : c ∈ cores t)
    (absorbed : Absorbed (way t c.staAddr)) : Deletes t c (deleteAt t c.staAddr c.radioID) := by
  induction t generalizing c with
  | nil => exact absurd mem not_mem_nil
  | node v l r ihl ihr =>
    obtain ⟨-, -, avlL, avlR⟩ := id avl
    obtain ⟨left, right, -⟩ := ordered_node.1 ordered
    rcases toward_or_eq c.staAddr v.core.staAddr with ⟨_ | _, toward⟩ | same
    · have absorbed := way_join (s := .left) toward ▸ absorbed
      exact .child (s := .left) avl toward absorbed
        (ihl avlL left ((mem_join (s := .left) ordered toward).1 mem) absorbed.1)
    · have absorbed := way_join (s := .right) toward ▸ absorbed
      exact .child (s := .right) avl toward absorbed
        (ihr avlR right ((mem_join (s := .right) ordered toward).1 mem) absorbed.1)
    · obtain rfl : c = v.core := ordered.eq_of_key mem (by simp) (congrArg addressKey same)
      rw [deleteAt_root, if_pos rfl]
      exact deletes_root avl ordered _ (fun next mem => ihr avlR right mem) absorbed

/-! ## Sequences of calls -/

/-- What a call does to the map of stations: an address that is there is not inserted, and a station is only deleted
with its radio. -/
def update (stations : Address → Option Station) : Call → Address → Option Station
  | .insert index (some staAddr) BSSID radioID malloc => fun a =>
    if a = staAddr ∧ stations staAddr = none then (⟨index, staAddr, BSSID, radioID, malloc⟩ : Insertion).station
    else stations a
  | .delete (some staAddr) radioID => fun a =>
    if a = staAddr ∧ (stations staAddr).map Station.radioID = some radioID then none else stations a
  | _ => stations

def Proper (t : StationTree) : Call → Prop
  | .insert _ none _ _ _ => False
  | .insert _ (some _) _ _ _ => True
  | .delete none _ => False
  | .delete (some staAddr) radioID =>
    (find (some staAddr) t).map Station.radioID = some radioID → Absorbed (way t staAddr)

instance (t : StationTree) : (c : Call) → Decidable (Proper t c)
  | .insert _ none _ _ _ => isFalse id
  | .insert _ (some _) _ _ _ => isTrue trivial
  | .delete none _ => isFalse id
  | .delete (some _) _ => inferInstanceAs (Decidable (_ → _))

structure Holds (t : StationTree) (stations : Address → Option Station) : Prop where
  ordered : Ordered stationKey t
  avl : IsAvl t
  find_eq : ∀ a, find (some a) t = stations a

variable {stations : Address → Option Station}

theorem Holds.lookup_eq (h : Holds t stations) (a : Address) :
    stations a = lookup stationKey (cores t) (addressKey a) := by
  rw [← h.find_eq, ← findAt_eq h.ordered]
  rfl

theorem Holds.of_lookup (ordered : Ordered stationKey t) (avl : IsAvl t)
    (found : ∀ a, lookup stationKey (cores t) (addressKey a) = stations a) : Holds t stations where
  ordered := ordered
  avl := avl
  find_eq := fun a => (findAt_eq ordered a).trans (found a)

theorem Holds.eq_some_iff (h : Holds t stations) {a : Address} : stations a = some c ↔ c ∈ cores t ∧ c.staAddr = a := by
  rw [h.lookup_eq, h.ordered.lookup_eq_some]
  exact and_congr_right fun _ => addressKey_injective.eq_iff

theorem Holds.insert (h : Holds t stations) (new : Insertion) : ∃ u, insertAt new t = some u ∧
      Holds u fun a => if a = new.staAddr ∧ stations new.staAddr = none then new.station else stations a := by
  cases there : stations new.staAddr with
  | some c =>
    refine ⟨t, insertAt_unchanged h.avl h.ordered (.inr ⟨c, h.eq_some_iff.1 there⟩), ?_⟩
    simpa using h
  | none =>
    simp only [and_true]
    cases station : new.station with
    | none =>
      refine ⟨t, insertAt_unchanged h.avl h.ordered (.inl station), h.ordered, h.avl, fun a => ?_⟩
      rw [h.find_eq]
      split_ifs with own
      · rw [own, there]
      · rfl
    | some c =>
      have fresh : ∀ d ∈ cores t, d.staAddr ≠ new.staAddr := by
        intro d mem own
        rw [h.eq_some_iff.2 ⟨mem, own⟩] at there
        exact absurd there nofun
      obtain ⟨u, inserted, orderedU, adds, avlU, -⟩ := insertAt_new h.avl h.ordered station fresh
      have own : stationKey c = addressKey new.staAddr := by
        obtain ⟨bytes, -, rfl⟩ := map_eq_some_iff.1 station
        rfl
      refine ⟨u, inserted, .of_lookup orderedU avlU fun a => ?_⟩
      simp [adds.lookup_eq orderedU, own, addressKey_injective.eq_iff, h.lookup_eq]

theorem Holds.delete (h : Holds t stations) (a : Address) (radioID : ℤ)
    (absorbed : (stations a).map Station.radioID = some radioID → Absorbed (way t a)) :
    ∃ u, deleteAt t a radioID = some u ∧
      Holds u fun b => if b = a ∧ (stations a).map Station.radioID = some radioID then none else stations b := by
  by_cases agrees : (stations a).map Station.radioID = some radioID
  · obtain ⟨c, there, rfl⟩ := map_eq_some_iff.1 agrees
    obtain ⟨mem, rfl⟩ := h.eq_some_iff.1 there
    obtain ⟨u, deleted, avlU, adds, -⟩ := deletes_present h.avl h.ordered mem (absorbed agrees)
    have orderedU : Ordered stationKey u := h.ordered.sublist adds.sublist
    refine ⟨u, deleted, .of_lookup orderedU avlU fun b => ?_⟩
    simp only [agrees, and_true]
    split_ifs with own
    · rw [own]
      exact adds.lookup_own h.ordered
    · have other : ¬ addressKey b = stationKey c := fun same => own (addressKey_injective same)
      rw [h.lookup_eq, adds.lookup_eq h.ordered, if_neg other]
  · refine ⟨t, deleteAt_unchanged h.avl h.ordered fun c mem own => ?_, ?_⟩
    · rintro rfl
      exact agrees (by rw [h.eq_some_iff.2 ⟨mem, own⟩]; rfl)
    · simpa [agrees] using h

theorem Holds.call (h : Holds t stations) (c : Call) (proper : Proper t c) :
    ∃ u, t.call c = some u ∧ Holds u (update stations c) := by
  cases c with
  | insert index staAddr BSSID radioID malloc =>
    cases staAddr with
    | none => exact proper.elim
    | some a => exact h.insert ⟨index, a, BSSID, radioID, malloc⟩
  | delete staAddr radioID =>
    cases staAddr with
    | none => exact proper.elim
    | some a =>
      refine h.delete a radioID fun agrees => proper ?_
      rwa [h.find_eq]

/-- Calls that only delete where no node has to be balanced keep a balanced search tree and behave as on a map. -/
theorem calls_hold (calls : List Call) (proper : Along call Proper .nil calls) :
    ∃ t, runFrom call .nil calls = some t ∧ Holds t (calls.foldl update fun _ => none) :=
  proper.simulation (fun _ _ c h => h.call c) ⟨List.Pairwise.nil, trivial, fun _ => rfl⟩

def addressOf (b : UInt8) : Address := ⟨[2, 0, 0, 0, 0, b], rfl⟩

def insertStation (b : UInt8) : Call := .insert 0 (some (addressOf b)) (some (addressOf 0)) 1 (some (addressOf 0))

theorem calls_hold_leaf :
    ∃ t, runFrom call .nil [insertStation 2, insertStation 1, insertStation 3,
      .delete (some (addressOf 1)) 1] = some t ∧
      Holds t ([insertStation 2, insertStation 1, insertStation 3, .delete (some (addressOf 1)) 1].foldl update
        fun _ => none) :=
  calls_hold _ (by decide +kernel)

/-- Four stations, of which the only one on the lower side is deleted: the rotation raises a child that is `NULL`. -/
theorem call_dereferences_null :
    runFrom call .nil [insertStation 2, insertStation 1, insertStation 3, insertStation 4] ≠ none ∧
      runFrom call .nil [insertStation 2, insertStation 1, insertStation 3, insertStation 4,
        .delete (some (addressOf 1)) 1] = none := by
  decide +kernel

end StationTree

end OpenWifi.OpenCapwap
