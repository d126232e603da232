import OpenWifi.Lib.Avl
import Mathlib.Data.List.Nodup

/-!
# Parent-linked trees in a heap

A cell of the heap holds a core value, a stored height and the three links of a binary tree node.  `Owns m par t` says
that the cells of `t` stand in the heap `m` with exactly the links of the tree, the root pointing up to `par`.
-/

namespace OpenWifi.LinkedTree

open List Zipper Avl

abbrev Addr := ℕ

structure Cell (κ : Type*) where
  core : κ
  height : ℤ
  parent : Option Addr
  left : Option Addr
  right : Option Addr
  deriving DecidableEq

/-- The memory of the nodes; `none` is memory that is not allocated. -/
abbrev Heap (κ : Type*) := Addr → Option (Cell κ)

abbrev LTree (κ : Type*) := HTree (Addr × κ)

variable {κ : Type*}

namespace Cell

/-- The link on side `s`. -/
def child (c : Cell κ) : Side → Option Addr
  | .left => c.left
  | .right => c.right

/-- The cell with its link on side `s` replaced. -/
def setChild (c : Cell κ) (s : Side) (p : Option Addr) : Cell κ :=
  match s with
  | .left => { c with left := p }
  | .right => { c with right := p }

/-- The cell whose link on side `s` is `a` and whose other link is `b`. -/
def ofSides (s : Side) (c : κ) (h : ℤ) (par a b : Option Addr) : Cell κ :=
  match s with
  | .left => ⟨c, h, par, a, b⟩
  | .right => ⟨c, h, par, b, a⟩

section

variable (s : Side) (c : κ) (h : ℤ) (par a b : Option Addr)

@[simp] theorem ofSides_core : (ofSides s c h par a b).core = c := by cases s <;> rfl

@[simp] theorem ofSides_height : (ofSides s c h par a b).height = h := by cases s <;> rfl

@[simp] theorem ofSides_parent : (ofSides s c h par a b).parent = par := by cases s <;> rfl

@[simp] theorem ofSides_child : (ofSides s c h par a b).child s = a := by cases s <;> rfl

@[simp] theorem ofSides_child_flip : (ofSides s c h par a b).child s.flip = b := by cases s <;> rfl

theorem ofSides_flip : ofSides s.flip c h par a b = ofSides s c h par b a := by cases s <;> rfl

@[simp] theorem setChild_ofSides (p : Option Addr) :
    (ofSides s c h par a b).setChild s p = ofSides s c h par p b := by cases s <;> rfl

end

end Cell

def root : LTree κ → Option Addr
  | .nil => none
  | .node v _ _ => some v.core.1

variable {t : LTree κ}

@[simp] theorem root_nil : root (.nil : LTree κ) = none := rfl

@[simp] theorem root_join (s : Side) (v : Label (Addr × κ)) (t u : LTree κ) :
    root (join s v t u) = some v.core.1 := by cases s <;> rfl

@[simp] theorem root_mk (s : Side) (c : Addr × κ) (t u : LTree κ) : root (mk s c t u) = some c.1 := by
  simp [mk]

@[simp] theorem root_eq_none : root t = none ↔ t = .nil := by
  cases t <;> simp [root]

theorem exists_root (ne : t ≠ .nil) : ∃ x, root t = some x := Option.ne_none_iff_exists'.1 (mt root_eq_none.1 ne)

def addrs (t : LTree κ) : List Addr := (cores t).map Prod.fst

@[simp] theorem addrs_nil : addrs (.nil : LTree κ) = [] := rfl

@[simp] theorem addrs_node (v : Label (Addr × κ)) (l r : LTree κ) :
    addrs (.node v l r) = addrs l ++ v.core.1 :: addrs r := by
  simp [addrs]

variable {v : Label (Addr × κ)} {t u : LTree κ}

theorem mem_addrs_join {s : Side} {a : Addr} : a ∈ addrs (join s v t u) ↔ a = v.core.1 ∨ a ∈ addrs t ∨ a ∈ addrs u := by
  simp only [addrs, mem_map, mem_cores_join]
  constructor
  · rintro ⟨c, rfl | h | h, rfl⟩
    · exact .inl rfl
    · exact .inr (.inl ⟨c, h, rfl⟩)
    · exact .inr (.inr ⟨c, h, rfl⟩)
  · rintro (rfl | ⟨c, h, rfl⟩ | ⟨c, h, rfl⟩)
    · exact ⟨v.core, .inl rfl, rfl⟩
    · exact ⟨c, .inr (.inl h), rfl⟩
    · exact ⟨c, .inr (.inr h), rfl⟩

theorem addrs_join_perm (s : Side) (v : Label (Addr × κ)) (t u : LTree κ) :
    List.Perm (addrs (join s v t u)) (v.core.1 :: (addrs t ++ addrs u)) := by
  have h := ((inorder_join_perm s v t u).map Label.core).map Prod.fst
  simpa [addrs, cores] using h

theorem nodup_addrs_join {s : Side} : (addrs (join s v t u)).Nodup ↔ v.core.1 ∉ addrs t ∧ v.core.1 ∉ addrs u ∧
      (addrs t).Nodup ∧ (addrs u).Nodup ∧ (addrs t).Disjoint (addrs u) := by
  rw [(addrs_join_perm s v t u).nodup_iff, nodup_cons, mem_append, not_or, nodup_append']
  tauto

theorem mem_addrs_of_root {a : Addr} (h : root t = some a) : a ∈ addrs t := by
  rcases eq_nil_or_join .left t with rfl | ⟨v, l, r, rfl⟩
  · simp at h
  · rw [root_join, Option.some.injEq] at h
    exact mem_addrs_join.2 (.inl h.symm)

/-! ## Owned trees -/

/-- The nodes of the tree stand in the heap, linked as in the tree, with `par` above the root. -/
def Owns (m : Heap κ) : Option Addr → LTree κ → Prop
  | _, .nil => True
  | par, .node v l r => m v.core.1 = some ⟨v.core.2, v.height, par, root l, root r⟩ ∧
      Owns m (some v.core.1) l ∧ Owns m (some v.core.1) r

variable {m : Heap κ}

@[simp] theorem owns_nil (m : Heap κ) (par : Option Addr) : Owns m par .nil := trivial

variable {par : Option Addr}

theorem owns_join {s : Side} :
    Owns m par (join s v t u) ↔ m v.core.1 = some (.ofSides s v.core.2 v.height par (root t) (root u)) ∧
      Owns m (some v.core.1) t ∧ Owns m (some v.core.1) u := by
  cases s
  · rfl
  · rw [join, Owns, Cell.ofSides, and_comm (a := Owns m _ u)]

theorem Owns.frame {m m' : Heap κ} (h : Owns m par t) (same : ∀ a ∈ addrs t, m' a = m a) : Owns m' par t := by
  induction t generalizing par with
  | nil => trivial
  | node v l r ihl ihr =>
    obtain ⟨hv, hl, hr⟩ := h
    have key : ∀ a, a = v.core.1 ∨ a ∈ addrs l ∨ a ∈ addrs r → m' a = m a := fun a ha =>
      same a (mem_addrs_join (s := .left).2 ha)
    exact ⟨(key _ (.inl rfl)).trans hv, ihl hl fun a ha => key a (.inr (.inl ha)),
      ihr hr fun a ha => key a (.inr (.inr ha))⟩

theorem Owns.root_parent (h : Owns m par t) {a : Addr} (ha : root t = some a) : ∃ c, m a = some c ∧ c.parent = par := by
  cases t with
  | nil => simp at ha
  | node v l r =>
    simp only [root, Option.some.injEq] at ha
    subst ha
    exact ⟨_, h.1, rfl⟩

theorem Owns.core_eq (h : Owns m par t) {c : Addr × κ} (hc : c ∈ cores t) : (m c.1).map Cell.core = some c.2 := by
  induction t generalizing par with
  | nil => simp at hc
  | node v l r ihl ihr =>
    obtain ⟨hv, hl, hr⟩ := h
    rcases mem_cores_join (s := .left).1 hc with rfl | hc | hc
    · rw [hv]; rfl
    · exact ihl hl hc
    · exact ihr hr hc

theorem Owns.unique : ∀ {p q : Option Addr}, Owns m p t → Owns m q u → root t = root u → t = u := by
  induction t generalizing u with
  | nil =>
    intro p q _ _ h
    exact (root_eq_none.1 h.symm).symm
  | node v l r ihl ihr =>
    intro p q hv hw h
    cases u with
    | nil => simp [root] at h
    | node w l' r' =>
      simp only [root, Option.some.injEq] at h
      obtain ⟨cv, hl, hr⟩ := hv
      obtain ⟨cw, hl', hr'⟩ := hw
      rw [h, cw, Option.some.injEq, Cell.mk.injEq] at cv
      obtain ⟨core, height, -, left, right⟩ := cv
      have same : w = v := by
        cases w
        cases v
        simp_all [Prod.ext_iff]
      rw [ihl hl hl' left.symm, ihr hr hr' right.symm, same]

/-! ## Positions -/

variable (f : Frame (Label (Addr × κ)))

def faddr : Addr := f.value.core.1

def above : Path (Label (Addr × κ)) → Option Addr
  | [] => none
  | f :: _ => some (faddr f)

def around : Path (Label (Addr × κ)) → List Addr
  | [] => []
  | f :: fs => faddr f :: (addrs f.sibling ++ around fs)

/-- The nodes around a position stand in the heap, the position itself being linked to `hole`. -/
def OwnsPath (m : Heap κ) : Path (Label (Addr × κ)) → Option Addr → Prop
  | [], _ => True
  | f :: fs, hole =>
      m (faddr f) = some (.ofSides f.side f.value.core.2 f.value.height (above fs) hole (root f.sibling)) ∧
      Owns m (some (faddr f)) f.sibling ∧ OwnsPath m fs (some (faddr f))

variable {p : Path (Label (Addr × κ))}

theorem OwnsPath.frame {m m' : Heap κ} {hole : Option Addr}
    (h : OwnsPath m p hole) (same : ∀ a ∈ around p, m' a = m a) : OwnsPath m' p hole := by
  induction p generalizing hole with
  | nil => trivial
  | cons f fs ih =>
    obtain ⟨hf, hs, hfs⟩ := h
    simp only [around, mem_cons, mem_append] at same
    exact ⟨(same _ (.inl rfl)).trans hf, hs.frame fun a ha => same a (.inr (.inl ha)),
      ih hfs fun a ha => same a (.inr (.inr ha))⟩

theorem owns_plug : Owns m none (plug p t) ↔ OwnsPath m p (root t) ∧ Owns m (above p) t := by
  induction p generalizing t with
  | nil => simp [OwnsPath, above]
  | cons f fs ih =>
    rw [plug_cons, ih, Frame.fill, root_join, owns_join, OwnsPath, above, faddr]
    tauto

theorem addrs_plug_perm (p : Path (Label (Addr × κ))) (t : LTree κ) :
    List.Perm (addrs (plug p t)) (addrs t ++ around p) := by
  induction p generalizing t with
  | nil => simp [around]
  | cons f fs ih =>
    have h := (addrs_join_perm f.side f.value t f.sibling).append_right (around fs)
    refine (ih (f.fill t)).trans (h.trans ?_)
    simp only [around, cons_append, append_assoc]
    exact perm_middle.symm

theorem nodup_addrs_plug :
    (addrs (plug p t)).Nodup ↔ (addrs t).Nodup ∧ (around p).Nodup ∧ (addrs t).Disjoint (around p) := by
  rw [(addrs_plug_perm p t).nodup_iff, nodup_append']

theorem mem_addrs_plug {a : Addr} : a ∈ addrs (plug p t) ↔ a ∈ addrs t ∨ a ∈ around p := by
  rw [(addrs_plug_perm p t).mem_iff, mem_append]

theorem root_plug_cons (fs : Path (Label (Addr × κ))) (t u : LTree κ) :
    root (plug (f :: fs) t) = root (plug (f :: fs) u) := by
  induction fs generalizing f t u with
  | nil => simp [Frame.fill]
  | cons g gs ih => exact ih g (f.fill t) (f.fill u)

theorem root_plug_refreshTop (fs : Path (Label (Addr × κ)))
    (t u : LTree κ) : root (plug (refreshTop t (f :: fs)) t) = root (plug (f :: fs) u) := by
  cases fs with
  | nil => simp [plug_refreshTop, Frame.fill]
  | cons g gs => exact root_plug_cons g gs _ _

end OpenWifi.LinkedTree
