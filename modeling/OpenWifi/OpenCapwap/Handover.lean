import OpenWifi.OpenCapwap.StationTree

/-!
# The handover of a station

When a station associates with a WTP, the AC sends it an add request, moves the station in its tree and sends a delete
request to the old WTP.
-/

namespace OpenWifi.OpenCapwap

open List Option Zipper Avl

namespace StationTree

variable {t u l r : StationTree} {v w : Label Station} {s : Side} {a : Address} {new : Insertion}

/-- What is in the node of a station after `AVLdeleteNode`: the only child or the station behind it, `none` when it is
freed. -/
def nodeAfterDelete (staAddr : Address) (radioID : ℤ) : StationTree → Option Station
  | .nil => none
  | .node v l r =>
    if compareEthAddr staAddr v.core.staAddr < 0 then nodeAfterDelete staAddr radioID l
    else if 0 < compareEthAddr staAddr v.core.staAddr then nodeAfterDelete staAddr radioID r
    else if v.core.radioID = radioID then
      match l, r with
      | .nil, .nil => none
      | .nil, .node temp _ _ => some temp.core
      | .node temp _ _, .nil => some temp.core
      | _, r => minValueNode r
    else some v.core

/-- An association response for the station `DA` that is handled for a WTP and one of its radios. -/
structure Association where
  WTPIndex : ℤ
  radioID : ℤ
  DA : Address
  BSSID : Address

/-- The call of `AVLinsert` for it. -/
def Association.insertion (x : Association) (malloc : Option Address) : Insertion :=
  ⟨x.WTPIndex, x.DA, some x.BSSID, x.radioID, malloc⟩

def Association.station (x : Association) : Station := ⟨x.DA, x.WTPIndex, x.radioID, x.BSSID⟩

/-- The part of `ACEnterRun` behind the add request: the tree, and the WTP to which the delete request is sent.  `none`
stands for an access through `NULL` or to a freed node. -/
def handover (sends : ℤ → Bool) (malloc : Option Address) (x : Association) (t : StationTree) :
    Option (StationTree × Option ℤ) :=
  match findAt x.DA t with
  | none => (insertAt (x.insertion malloc) t).map fun u => (u, none)
  | some tmpNodeSta =>
    if tmpNodeSta.radioID ≠ x.radioID ∨ tmpNodeSta.index ≠ x.WTPIndex then do
      let deleted ← deleteAt t x.DA x.radioID
      let u ← insertAt (x.insertion malloc) deleted
      let tmpNodeSta ← nodeAfterDelete x.DA x.radioID t
      return (u, if sends tmpNodeSta.index then some tmpNodeSta.index else none)
    else some (t, none)

/-- An interface of a radio; the BSSID is `none` for `NULL`. -/
structure RadioInterface where
  apMode : Bool
  BSSID : Option Address

structure WTPRadio where
  radioID : ℤ
  interfaces : List RadioInterface

/-- `strncmp` finds no difference. -/
def strncmpEq : List UInt8 → List UInt8 → Bool
  | x :: xs, y :: ys => x = y ∧ (x = 0 ∨ strncmpEq xs ys)
  | _, _ => true

/-- The loop over the interfaces of a radio. -/
def WTPRadio.searchWlan (BSSID : Address) (radio : WTPRadio) : Bool :=
  radio.interfaces.any fun i => i.apMode && i.BSSID.any (strncmpEq ·.toList BSSID.toList)

/-- The loop over the radios of the WTP: the number of the radio at which it ends, `none` when it is read behind the
last radio. -/
def searchRadio (BSSID : Address) (radios : List WTPRadio) : Option ℤ :=
  (radios.find? (WTPRadio.searchWlan BSSID)).map (·.radioID)

/-- `ACEnterRun` for an association response, when the add request could be sent.  With local MAC the radio is searched
among the radios of the WTP; with split MAC (`none`) it is the one of the frame. -/
def enterRun (radios : Option (List WTPRadio)) (sends : ℤ → Bool) (malloc : Option Address) (x : Association)
    (t : StationTree) : Option (StationTree × Option ℤ) :=
  match radios with
  | none => handover sends malloc x t
  | some radios => (searchRadio x.BSSID radios).bind fun radioID =>
    handover sends malloc { x with radioID := radioID } t

/-- The result has the station as associated, and the request goes to the WTP where it was before. -/
def Moves (x : Association) (t : StationTree) (result : Option (StationTree × Option ℤ)) : Prop :=
  ∃ u sent, result = some (u, sent) ∧ findAt x.DA u = some x.station ∧
    ∀ c, findAt x.DA t = some c → c.index ≠ x.WTPIndex ∨ c.radioID ≠ x.radioID → sent = some c.index

def HandedOver (radios : Option (List WTPRadio)) (sends : ℤ → Bool) (malloc : Option Address) (x : Association)
    (t : StationTree) : Prop :=
  Moves x t (enterRun radios sends malloc x t)

/-! ## The radio -/

/-- The radio has an access point whose BSSID agrees with the other one up to a zero byte. -/
def WTPRadio.Has (BSSID : Address) (radio : WTPRadio) : Prop :=
  ∃ i ∈ radio.interfaces, i.apMode ∧ ∃ own ∈ i.BSSID, own.toList.takeWhile (· ≠ 0) = BSSID.toList.takeWhile (· ≠ 0)

/-- The first radio that has the BSSID is the one of the association. -/
def RightRadio (radios : List WTPRadio) (x : Association) : Prop :=
  ∃ before radio after, radios = before ++ radio :: after ∧ radio.radioID = x.radioID ∧ radio.Has x.BSSID ∧
    ∀ other ∈ before, ¬ other.Has x.BSSID

theorem strncmpEq_iff {xs ys : List UInt8} (length : xs.length = ys.length) :
    strncmpEq xs ys ↔ xs.takeWhile (· ≠ 0) = ys.takeWhile (· ≠ 0) := by
  induction xs generalizing ys with
  | nil => simp [strncmpEq, length_eq_zero_iff.1 length.symm]
  | cons x xs ih =>
    obtain ⟨y, ys, rfl⟩ := exists_cons_of_length_eq_add_one length.symm
    have rest : strncmpEq xs ys ↔ _ := ih (by simpa using length)
    by_cases zero : x = 0 <;> by_cases zero' : y = 0 <;> by_cases same : x = y <;> simp_all [strncmpEq]

theorem WTPRadio.searchWlan_iff (BSSID : Address) (radio : WTPRadio) : radio.searchWlan BSSID ↔ radio.Has BSSID := by
  have same (own : Address) := strncmpEq_iff (own.toList_length.trans BSSID.toList_length.symm)
  simp only [searchWlan, Has, List.any_eq_true, Bool.and_eq_true, Option.any_eq_true, same, mem_def]

theorem searchRadio_eq {radios : List WTPRadio} {x : Association} (right : RightRadio radios x) :
    searchRadio x.BSSID radios = some x.radioID := by
  obtain ⟨before, radio, after, rfl, number, has, others⟩ := right
  have found : (before ++ radio :: after).find? (WTPRadio.searchWlan x.BSSID) = some radio := by
    refine find?_eq_some_iff_append.2 ⟨(radio.searchWlan_iff x.BSSID).2 has, before, after, rfl, fun other mem => ?_⟩
    simpa using (other.searchWlan_iff x.BSSID).not.2 (others other mem)
  rw [searchRadio, found, map_some, number]

/-! ## Changes that keep the stations -/

def Keeps (t u : StationTree) : Prop := cores u = cores t ∧ (Nonneg t → Nonneg u)

theorem Keeps.trans {x : StationTree} (h : Keeps t u) (h' : Keeps u x) : Keeps t x :=
  ⟨h'.1.trans h.1, fun nonneg => h'.2 (h.2 nonneg)⟩

theorem keeps_refresh (t : StationTree) : Keeps t (refresh t) := ⟨cores_refresh t, Nonneg.refresh⟩

theorem keeps_singleRotateWith (rotated : singleRotateWith s t = some u) : Keeps t u := by
  rcases eq_nil_or_join s t with rfl | ⟨x, l, c, rfl⟩
  · exact absurd rotated (by cases s <;> exact nofun)
  · rcases eq_nil_or_join s l with rfl | ⟨y, a, b, rfl⟩
    · exact absurd rotated (by cases s <;> exact nofun)
    · rw [singleRotateWith_join] at rotated
      cases rotated
      refine ⟨?_, fun nonneg => ?_⟩
      · cases s <;> simp [mk, cores_join_left, cores_join_right]
      · obtain ⟨-, left, nonnegC⟩ := nonneg_join.1 nonneg
        obtain ⟨-, nonnegA, nonnegB⟩ := nonneg_join.1 left
        exact .mk nonnegA (.mk nonnegB nonnegC)

theorem Keeps.join_left (h : Keeps l u) (s : Side) (v : Label Station) (r : StationTree) :
    Keeps (join s v l r) (join s v u r) := by
  refine ⟨?_, fun nonneg => ?_⟩
  · cases s <;> simp [cores_join_left, cores_join_right, h.1]
  · obtain ⟨height, left, right⟩ := nonneg_join.1 nonneg
    exact nonneg_join.2 ⟨height, h.2 left, right⟩

theorem keeps_doubleRotateWith (rotated : doubleRotateWith s t = some u) : Keeps t u := by
  cases t with
  | nil => exact absurd rotated nofun
  | node v l r =>
    obtain ⟨raised, inner, outer⟩ := bind_eq_some_iff.1 rotated
    have first := (keeps_singleRotateWith inner).join_left s v (child s.flip (.node v l r))
    rw [join_child] at first
    exact first.trans (keeps_singleRotateWith outer)

theorem keeps_rebalanceInserted (balanced : rebalanceInserted s a t = some u) : Keeps t u := by
  rw [rebalanceInserted] at balanced
  split at balanced
  case isFalse => exact some.inj balanced ▸ keeps_refresh t
  case isTrue =>
    split at balanced
    case h_1 => cases balanced
    case h_2 =>
      obtain ⟨x, rotated, rfl⟩ := map_eq_some_iff.1 balanced
      split at rotated
      · exact (keeps_singleRotateWith rotated).trans (keeps_refresh x)
      · exact (keeps_doubleRotateWith rotated).trans (keeps_refresh x)

theorem keeps_rebalanceDeleted (balanced : rebalanceDeleted t = some u) : Keeps t u := by
  cases t with
  | nil => exact some.inj balanced ▸ ⟨rfl, id⟩
  | node v l r =>
    have root := keeps_refresh (.node v l r)
    simp only [rebalanceDeleted] at balanced
    split_ifs at balanced
    · exact root.trans (keeps_singleRotateWith balanced)
    · obtain ⟨x, rotated, balanced⟩ := bind_eq_some_iff.1 balanced
      exact ((keeps_singleRotateWith rotated).join_left .left v r).trans (keeps_singleRotateWith balanced)
    · exact root.trans (keeps_singleRotateWith balanced)
    · obtain ⟨x, rotated, balanced⟩ := bind_eq_some_iff.1 balanced
      exact ((keeps_singleRotateWith rotated).join_left .right v l).trans (keeps_singleRotateWith balanced)
    · exact some.inj balanced ▸ root

/-! ## Insertion in any search tree -/

theorem keeps_insertAt (ordered : Ordered stationKey t)
    (nothing : new.station = none ∨ ∃ c ∈ cores t, c.staAddr = new.staAddr) (inserted : insertAt new t = some u) :
    Keeps t u := by
  induction t using toward_induction (a := new.staAddr) generalizing u with
  | nil =>
    rcases nothing with none | ⟨c, mem, -⟩
    · rw [insertAt, none] at inserted
      exact some.inj inserted ▸ ⟨rfl, id⟩
    · exact absurd mem not_mem_nil
  | child s v l r toward ih =>
    rw [insertAt_join toward] at inserted
    obtain ⟨l', deeper, balanced⟩ := bind_eq_some_iff.1 inserted
    have keeps := ih (Ordered.child ordered) (nothing_child ordered toward nothing) deeper
    exact (keeps.join_left s v r).trans (keeps_rebalanceInserted balanced)
  | root v l r same =>
    rw [insertAt_root same] at inserted
    exact some.inj inserted ▸ keeps_refresh _

def Raised (a : Address) (t : StationTree) : Prop :=
  ∀ w l r, t = .node w l r → w.core.staAddr = a → w.height = 0 ∨ l ≠ .nil ∧ r ≠ .nil

theorem raised_join {x y : StationTree} :
    Raised a (join s w x y) ↔ (w.core.staAddr = a → w.height = 0 ∨ x ≠ .nil ∧ y ≠ .nil) := by
  constructor
  · intro raised own
    cases s
    · exact raised w x y rfl own
    · exact (raised w y x rfl own).imp_right And.symm
  · intro raised w' l r same own
    cases s
    · obtain ⟨rfl, rfl, rfl⟩ := BinaryTree.node.inj same
      exact raised own
    · obtain ⟨rfl, rfl, rfl⟩ := BinaryTree.node.inj same
      exact (raised own).imp_right And.symm

theorem rebalanceInserted_two {x y : StationTree} (two : ht (join s w x y) - ht r = 2) :
    rebalanceInserted s a (join s v (join s w x y) r) =
      (if Toward s a w.core.staAddr then singleRotateWith s (join s v (join s w x y) r)
        else doubleRotateWith s (join s v (join s w x y) r)).map refresh := by
  rw [rebalanceInserted, child_join, child_flip_join, if_pos two]
  cases s <;> rfl

theorem rebalanceInserted_total (nonneg : Nonneg (join s v l r)) (ordered : Ordered stationKey l) {c : Station}
    (mem : c ∈ cores l) (toward : Toward s c.staAddr v.core.staAddr) (raised : Raised c.staAddr l) :
    ∃ u, rebalanceInserted s c.staAddr (join s v l r) = some u ∧ Raised c.staAddr u := by
  by_cases two : ht l - ht r = 2
  · have low := (nonneg_join.1 nonneg).2.2.ht_ge
    rcases eq_nil_or_join s l with rfl | ⟨w, x, y, rfl⟩
    · exact absurd mem not_mem_nil
    · rw [rebalanceInserted_two two]
      by_cases step : Toward s c.staAddr w.core.staAddr
      · rw [if_pos step, singleRotateWith_join]
        refine ⟨_, rfl, ?_⟩
        rw [refresh_mk]
        exact raised_join.2 fun own => absurd own step.ne
      · -- the new station is behind the child or is this child, which has been raised
        have inner : y ≠ .nil := by
          by_cases own : w.core.staAddr = c.staAddr
          · rw [ht_join] at two
            exact ((raised_join.1 raised own).resolve_left (by omega)).2
          · rintro rfl
            rcases mem_cores_join.1 mem with rfl | memX | memY
            · exact own rfl
            · exact step (toward_of_mem ordered memX)
            · exact absurd memY not_mem_nil
        obtain ⟨z, p, q, rfl⟩ := (eq_nil_or_join s y).resolve_left inner
        rw [if_neg step, doubleRotateWith_join]
        refine ⟨_, rfl, ?_⟩
        rw [refresh_mk]
        exact raised_join.2 fun _ => .inr ⟨mk_ne_nil _ _ _ _, mk_ne_nil _ _ _ _⟩
  · rw [rebalanceInserted, child_join, child_flip_join, if_neg two, refresh_join]
    exact ⟨_, rfl, raised_join.2 fun own => absurd own toward.ne⟩

theorem insertAt_fresh {c : Station} (nonneg : Nonneg t) (ordered : Ordered stationKey t)
    (station : new.station = some c) (fresh : ∀ d ∈ cores t, d.staAddr ≠ new.staAddr) :
    ∃ u, insertAt new t = some u ∧ Ordered stationKey u ∧ Adds c (cores t) (cores u) ∧ Nonneg u ∧
      Raised c.staAddr u := by
  refine insertAt_rule (P := Nonneg) (Q := fun _ u => Nonneg u ∧ Raised c.staAddr u) station
    ⟨(nonneg_join (s := .left)).2 ⟨le_rfl, nonneg_nil, nonneg_nil⟩, (raised_join (s := .left)).2 fun _ => .inl rfl⟩
    (fun s v l r nonneg => (nonneg_join.1 nonneg).2.1)
    (fun s v l r l' nonneg toward ordered' mem kept => ?_) nonneg ordered fresh
  obtain ⟨height, -, nonnegR⟩ := nonneg_join.1 nonneg
  have nonnegV : Nonneg (join s v l' r) := nonneg_join.2 ⟨height, kept.1, nonnegR⟩
  obtain ⟨u, balanced, raisedU⟩ := rebalanceInserted_total nonnegV ordered' mem toward kept.2
  obtain ⟨coresU, nonnegU⟩ := keeps_rebalanceInserted balanced
  exact ⟨u, balanced, coresU, nonnegU nonnegV, raisedU⟩

theorem deleteRoot_leaves {deleteNext : Station → Option StationTree} (ordered : Ordered stationKey (.node v l r))
    (right : ∀ next ∈ cores r, ∀ r', deleteNext next = some r' → Adds next (cores r') (cores r) ∧
      (Nonneg r → Nonneg r'))
    (deleted : deleteRoot v.height l r deleteNext = some u) :
    Adds v.core (cores u) (cores (.node v l r)) ∧ (Nonneg (.node v l r) → Nonneg u) := by
  cases l with
  | nil =>
    obtain ⟨coresU, nonnegU⟩ := keeps_rebalanceDeleted (t := r) deleted
    exact ⟨⟨[], cores r, coresU, rfl⟩, fun nonneg => nonnegU ((nonneg_join (s := .left)).1 nonneg).2.2⟩
  | node w x y =>
    cases r with
    | nil =>
      obtain ⟨coresU, nonnegU⟩ := keeps_rebalanceDeleted (t := .node w x y) deleted
      refine ⟨⟨cores (.node w x y), [], by simpa using coresU, by simp⟩, fun nonneg => ?_⟩
      exact nonnegU ((nonneg_join (s := .left)).1 nonneg).2.1
    | node z p q =>
      obtain ⟨next, rest, list, found⟩ := exists_next z p q
      rw [deleteRoot_both found] at deleted
      obtain ⟨r', deeper, balanced⟩ := bind_eq_some_iff.1 deleted
      obtain ⟨adds, nonneg'⟩ := right next (by simp [list]) r' deeper
      obtain ⟨coresU, nonnegU⟩ := keeps_rebalanceDeleted balanced
      have growing : Growing stationKey (next :: rest) := list ▸ (ordered_node.1 ordered).2.1
      rw [list] at adds
      refine ⟨?_, fun nonneg => ?_⟩
      · rw [coresU, cores_node, cores_node v, list, Adds.of_first adds growing]
        exact ⟨cores (.node w x y), next :: rest, rfl, rfl⟩
      · obtain ⟨height, nonnegL, nonnegR⟩ := (nonneg_join (s := .left)).1 nonneg
        exact nonnegU ((nonneg_join (s := .left)).2 ⟨height, nonnegL, nonneg' nonnegR⟩)

def Leaves (t : StationTree) (a : Address) (radioID : ℤ) (u : StationTree) : Prop :=
  (∀ c ∈ cores t, c.staAddr = a → c.radioID = radioID → Adds c (cores u) (cores t)) ∧
    ((∀ c ∈ cores t, c.staAddr = a → c.radioID ≠ radioID) → cores u = cores t) ∧ (Nonneg t → Nonneg u)

variable {radioID : ℤ}

theorem Leaves.child (ordered : Ordered stationKey (join s v l r)) (toward : Toward s a v.core.staAddr)
    (deeper : ∀ l', deleteAt l a radioID = some l' → Leaves l a radioID l')
    (deleted : deleteAt (join s v l r) a radioID = some u) : Leaves (join s v l r) a radioID u := by
  rw [deleteAt_join toward] at deleted
  obtain ⟨l', below, balanced⟩ := bind_eq_some_iff.1 deleted
  obtain ⟨takes, stays, nonneg'⟩ := deeper l' below
  obtain ⟨coresU, nonnegU⟩ := keeps_rebalanceDeleted balanced
  refine ⟨fun c mem own agrees => ?_, fun differs => ?_, fun nonneg => ?_⟩
  · rw [coresU]
    exact Adds.join (takes c ((mem_join ordered (own ▸ toward)).1 mem) own agrees) s v r
  · have same := stays fun c mem => differs c (mem_cores_join.2 (.inr (.inl mem)))
    cases s <;> simp [coresU, cores_join_left, cores_join_right, same]
  · obtain ⟨height, nonnegL, nonnegR⟩ := nonneg_join.1 nonneg
    exact nonnegU (nonneg_join.2 ⟨height, nonneg' nonnegL, nonnegR⟩)

theorem deleteAt_leaves (ordered : Ordered stationKey t) (deleted : deleteAt t a radioID = some u) :
    Leaves t a radioID u := by
  induction t generalizing a radioID u with
  | nil => exact some.inj deleted ▸ ⟨nofun, fun _ => rfl, id⟩
  | node v l r ihl ihr =>
    obtain ⟨left, right, -⟩ := ordered_node.1 ordered
    rcases toward_or_eq a v.core.staAddr with ⟨_ | _, toward⟩ | rfl
    · exact .child (s := .left) ordered toward (fun _ => ihl left) deleted
    · exact .child (s := .right) ordered toward (fun _ => ihr right) deleted
    · have root : ∀ c ∈ cores (.node v l r), c.staAddr = v.core.staAddr → c = v.core := fun c mem own =>
        ordered.eq_of_key mem (by simp) (congrArg addressKey own)
      rw [deleteAt_root] at deleted
      split at deleted
      case isFalse differs =>
        obtain ⟨coresU, nonnegU⟩ := keeps_rebalanceDeleted deleted
        exact ⟨fun c mem own agrees => absurd (root c mem own ▸ agrees) differs, fun _ => coresU, nonnegU⟩
      case isTrue agrees =>
        obtain ⟨adds, nonnegU⟩ := deleteRoot_leaves ordered (fun next memR r' deeper => by
          obtain ⟨takes, -, nonneg'⟩ := ihr right deeper
          exact ⟨takes next memR rfl rfl, nonneg'⟩) deleted
        exact ⟨fun c mem own _ => root c mem own ▸ adds, fun differs =>
          absurd agrees (differs v.core (by simp) rfl), nonnegU⟩

/-! ## The trees of the AC -/

structure Valid (t : StationTree) : Prop where
  ordered : Ordered stationKey t
  nonneg : Nonneg t

theorem Valid.findAt_eq_some (valid : Valid t) {c : Station} : findAt a t = some c ↔ c ∈ cores t ∧ c.staAddr = a := by
  rw [findAt_eq valid.ordered, valid.ordered.lookup_eq_some]
  exact and_congr_right fun _ => addressKey_injective.eq_iff

theorem Valid.fresh (valid : Valid t) (missed : findAt a t = none) : ∀ d ∈ cores t, d.staAddr ≠ a := by
  intro d mem own
  rw [valid.findAt_eq_some.2 ⟨mem, own⟩] at missed
  exact absurd missed nofun

theorem Valid.of_keeps (valid : Valid t) (keeps : Keeps t u) : Valid u :=
  ⟨by rw [Ordered, keeps.1]; exact valid.ordered, keeps.2 valid.nonneg⟩

theorem Valid.findAt_keeps (valid : Valid t) (keeps : Keeps t u) (a : Address) : findAt a u = findAt a t := by
  rw [findAt_eq (valid.of_keeps keeps).ordered, findAt_eq valid.ordered, keeps.1]

theorem Valid.inserted (valid : Valid t) (inserted : insertAt new t = some u) : Valid u ∧ ∀ b, findAt b u =
    if b = new.staAddr ∧ findAt new.staAddr t = none then new.station else findAt b t := by
  cases found : findAt new.staAddr t with
  | some c =>
    have keeps := keeps_insertAt valid.ordered (.inr ⟨c, valid.findAt_eq_some.1 found⟩) inserted
    exact ⟨valid.of_keeps keeps, by simpa using valid.findAt_keeps keeps⟩
  | none =>
    simp only [and_true]
    cases station : new.station with
    | none =>
      have keeps := keeps_insertAt valid.ordered (.inl station) inserted
      refine ⟨valid.of_keeps keeps, fun b => ?_⟩
      rw [valid.findAt_keeps keeps]
      split_ifs with own
      · rw [own, found]
      · rfl
    | some c =>
      obtain ⟨x, inserted', ordered, adds, nonneg, -⟩ :=
        insertAt_fresh valid.nonneg valid.ordered station (valid.fresh found)
      obtain rfl := some.inj (inserted.symm.trans inserted')
      obtain ⟨bytes, -, rfl⟩ := map_eq_some_iff.1 station
      refine ⟨⟨ordered, nonneg⟩, fun b => ?_⟩
      simp [findAt_eq ordered, findAt_eq valid.ordered, adds.lookup_eq ordered, stationKey, addressKey_injective.eq_iff]

theorem Valid.insertAt (valid : Valid t) (inserted : insertAt new t = some u) : Valid u := (valid.inserted inserted).1

theorem Valid.deleted (valid : Valid t) (deleted : deleteAt t a radioID = some u) : Valid u ∧ ∀ b, findAt b u =
    if b = a ∧ (findAt a t).map Station.radioID = some radioID then none else findAt b t := by
  obtain ⟨takes, stays, nonneg⟩ := deleteAt_leaves valid.ordered deleted
  by_cases agrees : (findAt a t).map Station.radioID = some radioID
  · obtain ⟨c, found, rfl⟩ := map_eq_some_iff.1 agrees
    obtain ⟨mem, rfl⟩ := valid.findAt_eq_some.1 found
    have adds := takes c mem rfl rfl
    have ordered : Ordered stationKey u := valid.ordered.sublist adds.sublist
    refine ⟨⟨ordered, nonneg valid.nonneg⟩, fun b => ?_⟩
    rw [findAt_eq ordered, findAt_eq valid.ordered b]
    simp only [agrees, and_true]
    split_ifs with own
    · rw [own]
      exact adds.lookup_own valid.ordered
    · rw [adds.lookup_eq valid.ordered]
      exact (if_neg fun same => own (addressKey_injective same)).symm
  · have keeps : Keeps t u := by
      refine ⟨stays fun c mem own => ?_, nonneg⟩
      rintro rfl
      exact agrees (by rw [valid.findAt_eq_some.2 ⟨mem, own⟩]; rfl)
    exact ⟨valid.of_keeps keeps, by simpa [agrees] using valid.findAt_keeps keeps⟩

theorem Valid.deleteAt (valid : Valid t) (deleted : deleteAt t a radioID = some u) :
    Valid u := (valid.deleted deleted).1

/-- `update` for every call: with a `NULL` address all stations are lost. -/
def updateAny (stations : Address → Option Station) : Call → Address → Option Station
  | .insert _ none _ _ _ | .delete none _ => fun _ => none
  | c => update stations c

def Follows (t : StationTree) (stations : Address → Option Station) :
    Prop := Valid t ∧ ∀ a, find (some a) t = stations a

theorem follows_nil : Follows .nil fun _ => none := ⟨⟨List.Pairwise.nil, by simp [Nonneg]⟩, fun _ => rfl⟩

theorem Follows.call {stations : Address → Option Station} {c : Call} (h : Follows t stations)
    (next : call t c = some u) :
    Follows u (updateAny stations c) := by
  obtain ⟨valid, found⟩ := h
  obtain rfl : (fun a => find (some a) t) = stations := funext found
  rcases c with ⟨_, _ | a, _, _, _⟩ | ⟨_ | a, _⟩
  · exact some.inj next ▸ follows_nil
  · exact valid.inserted next
  · exact some.inj next ▸ follows_nil
  · exact valid.deleted next

theorem follows_calls {calls : List Call} (run : runFrom call .nil calls = some t) :
    Follows t (calls.foldl updateAny fun _ => none) :=
  runFrom_simulation (fun _ _ _ _ => Follows.call) follows_nil run

theorem valid_of_calls (calls : List Call) (run : runFrom call .nil calls = some t) : Valid t := (follows_calls run).1

/-- In every run without an access through `NULL` the tree is the map of the calls, balanced or not. -/
theorem find_of_calls {calls : List Call} (run : runFrom call .nil calls = some t) (a : Address) :
    find (some a) t = calls.foldl updateAny (fun _ => none) a :=
  (follows_calls run).2 a

theorem find_of_calls_three : ∃ t, runFrom call .nil ([1, 2, 3].map insertStation) = some t ∧ ∀ a,
    find (some a) t = ([1, 2, 3].map insertStation).foldl updateAny (fun _ => none) a :=
  ⟨_, rfl, find_of_calls rfl⟩

variable {x : Association} {malloc : Option Address} {c : Station}

theorem Association.station_insertion (x : Association) (malloc : Option Address) :
    (x.insertion malloc).station = malloc.map fun _ => x.station := rfl

theorem Valid.exists_insertAt (valid : Valid t) (missed : findAt x.DA t = none) (memory : malloc.isSome) :
    ∃ u, StationTree.insertAt (x.insertion malloc) t = some u ∧ findAt x.DA u = some x.station := by
  obtain ⟨bytes, rfl⟩ := isSome_iff_exists.1 memory
  obtain ⟨u, inserted, -, adds, -⟩ :=
    insertAt_fresh valid.nonneg valid.ordered (x.station_insertion (some bytes)) (valid.fresh missed)
  exact ⟨u, inserted, (valid.insertAt inserted).findAt_eq_some.2 ⟨adds.mem_iff.2 (.inl rfl), rfl⟩⟩

theorem Valid.findAt_insertAt (valid : Valid t) (nothing : malloc = none ∨ findAt x.DA t = some c)
    (inserted : StationTree.insertAt (x.insertion malloc) t = some u) : findAt x.DA u = findAt x.DA t := by
  refine valid.findAt_keeps (keeps_insertAt valid.ordered (nothing.imp ?_ ?_) inserted) _
  · rintro rfl
    rfl
  · exact fun found => ⟨c, valid.findAt_eq_some.1 found⟩

theorem Valid.findAt_deleteAt (valid : Valid t) (found : findAt a t = some c)
    (deleted : StationTree.deleteAt t a radioID = some u) :
    findAt a u = if c.radioID = radioID then none else some c := by
  simp [(valid.deleted deleted).2, found]

/-- The station is new, known as it is now, or known at another WTP with the same radio number; then the station that is
copied to its node is of the old WTP. -/
def Movable (sends : ℤ → Bool) (malloc : Option Address) (x : Association) (t : StationTree) : Prop :=
  match findAt x.DA t with
  | none => malloc.isSome
  | some c =>
    c = x.station ∨ c.radioID = x.radioID ∧ c.index ≠ x.WTPIndex ∧ malloc.isSome ∧ sends c.index ∧
        (nodeAfterDelete x.DA x.radioID t).map Station.index = some c.index

instance (sends : ℤ → Bool) (malloc : Option Address) (x : Association) (t : StationTree) :
    Decidable (Movable sends malloc x t) := by
  unfold Movable
  split <;> infer_instance

theorem handover_moved {sends : ℤ → Bool} (valid : Valid t) (found : findAt x.DA t = some c)
    (moved : c.radioID ≠ x.radioID ∨ c.index ≠ x.WTPIndex)
    (completes : c.radioID = x.radioID → (StationTree.deleteAt t x.DA x.radioID).isSome) :
    Moves x t (handover sends malloc x t) ↔ c.radioID = x.radioID ∧ malloc.isSome ∧ sends c.index ∧
      (nodeAfterDelete x.DA x.radioID t).map Station.index = some c.index := by
  have steps : handover sends malloc x t = do
      let deleted ← StationTree.deleteAt t x.DA x.radioID
      let u ← StationTree.insertAt (x.insertion malloc) deleted
      let tmpNodeSta ← nodeAfterDelete x.DA x.radioID t
      return (u, if sends tmpNodeSta.index then some tmpNodeSta.index else none) := by
    rw [handover, found]
    exact if_pos moved
  constructor
  · rintro ⟨u, sent, run, now, told⟩
    rw [steps] at run
    obtain ⟨d, deleted, run⟩ := bind_eq_some_iff.1 run
    obtain ⟨u', inserted, run⟩ := bind_eq_some_iff.1 run
    obtain ⟨node, content, run⟩ := bind_eq_some_iff.1 run
    cases run
    have left := valid.findAt_deleteAt found deleted
    have agrees : c.radioID = x.radioID := by
      by_contra differs
      rw [if_neg differs] at left
      rw [(valid.deleteAt deleted).findAt_insertAt (.inr left) inserted, left] at now
      exact differs (congrArg Station.radioID (some.inj now))
    have memory : malloc.isSome := by
      by_contra none
      rw [not_isSome_iff_eq_none] at none
      rw [(valid.deleteAt deleted).findAt_insertAt (c := c) (.inl none) inserted, left, if_pos agrees] at now
      exact absurd now nofun
    have request := told c found moved.symm
    split at request
    case isTrue can =>
      have index := some.inj request
      exact ⟨agrees, memory, index ▸ can, by rw [content, map_some, index]⟩
    case isFalse => exact absurd request nofun
  · rintro ⟨agrees, memory, can, content⟩
    obtain ⟨d, deleted⟩ := isSome_iff_exists.1 (completes agrees)
    obtain ⟨node, copied, index⟩ := map_eq_some_iff.1 content
    have left := valid.findAt_deleteAt found deleted
    rw [if_pos agrees] at left
    obtain ⟨u, inserted, now⟩ := (valid.deleteAt deleted).exists_insertAt left memory
    refine ⟨u, some c.index, ?_, now, fun c' found' _ => ?_⟩
    · rw [steps, deleted, copied]
      simp [inserted, index, can]
    · rw [some.inj (found.symm.trans found')]

theorem handover_new {sends : ℤ → Bool} (valid : Valid t) (new : findAt x.DA t = none) :
    Moves x t (handover sends malloc x t) ↔ malloc.isSome := by
  constructor
  · rintro ⟨u, sent, run, now, -⟩
    rw [handover, new] at run
    obtain ⟨u', inserted, run⟩ := map_eq_some_iff.1 run
    cases run
    by_contra none
    rw [not_isSome_iff_eq_none] at none
    rw [valid.findAt_insertAt (c := x.station) (.inl none) inserted, new] at now
    cases now
  · intro memory
    obtain ⟨u, inserted, now⟩ := valid.exists_insertAt new memory
    refine ⟨u, none, ?_, now, fun c known => ?_⟩
    · rw [handover, new]
      exact congrArg (Option.map _) inserted
    · cases new.symm.trans known

theorem handover_unmoved {sends : ℤ → Bool} (found : findAt x.DA t = some c)
    (unmoved : ¬ (c.radioID ≠ x.radioID ∨ c.index ≠ x.WTPIndex)) :
    Moves x t (handover sends malloc x t) ↔ c = x.station := by
  have nothing : handover sends malloc x t = some (t, none) := by
    rw [handover, found]
    exact if_neg unmoved
  constructor
  · rintro ⟨u, sent, run, now, -⟩
    obtain ⟨rfl, rfl⟩ := Prod.mk.inj (some.inj (nothing.symm.trans run))
    exact some.inj (found.symm.trans now)
  · rintro rfl
    refine ⟨t, none, nothing, found, fun c known other => ?_⟩
    obtain rfl := some.inj (found.symm.trans known)
    exact absurd other.symm unmoved

theorem deletes_found (avl : IsAvl t) (ordered : Ordered stationKey t) (found : findAt a t = some c)
    (level : Absorbed (way t a)) : (StationTree.deleteAt t a c.radioID).isSome := by
  obtain ⟨mem, rfl⟩ := (Valid.findAt_eq_some ⟨ordered, avl.nonneg⟩).1 found
  obtain ⟨u, deleted, -⟩ := deletes_present avl ordered mem level
  exact isSome_of_eq_some deleted

def stationNode (b : UInt8) (height : ℤ) (l r : StationTree) : StationTree :=
  .node ⟨⟨addressOf b, 0, 1, addressOf 0⟩, height⟩ l r

def accessPoint (radioID : ℤ) (BSSID : Address) : WTPRadio := ⟨radioID, [⟨true, some BSSID⟩]⟩

end StationTree

end OpenWifi.OpenCapwap
