import Mathlib.Data.Tree.Basic
import Mathlib.Tactic.Common

/-!
# Positions in binary trees

A position of a binary tree is a `Path`, the frames on the way up to the root, together with the subtree found there;
`plug` puts a subtree back into its path.  `join s v t u` hangs `t` on side `s` and `u` on the other side, so that one
statement covers a construction and its mirror image.
-/

namespace OpenWifi

open List

inductive Side
  | left
  | right
  deriving DecidableEq

namespace Side

def flip : Side → Side
  | left => right
  | right => left

@[simp] theorem flip_left : flip left = right := rfl

@[simp] theorem flip_right : flip right = left := rfl

@[simp] theorem flip_flip (s : Side) : s.flip.flip = s := by cases s <;> rfl

theorem eq_or_eq_flip (s d : Side) : d = s ∨ d = s.flip := by
  cases s <;> cases d <;> simp

end Side

namespace Zipper

variable {α : Type*} (s : Side) (v : α) (t u : BinaryTree α)

/-- The node `v` with `t` on side `s` and `u` on the other side. -/
def join : BinaryTree α :=
  match s with
  | .left => .node v t u
  | .right => .node v u t

theorem join_flip : join s.flip v t u = join s v u t := by
  cases s <;> rfl

variable (l r : BinaryTree α)

theorem node_eq_join : ∃ t u, BinaryTree.node v l r = join s v t u := by
  cases s
  · exact ⟨l, r, rfl⟩
  · exact ⟨r, l, rfl⟩

@[simp] theorem join_ne_nil : join s v t u ≠ .nil := by
  cases s <;> simp [join]

theorem join_inj {s : Side} {v w : α} {t t' u u' : BinaryTree α}
    (h : join s v t u = join s w t' u') : v = w ∧ t = t' ∧ u = u' := by
  cases s <;> simp only [join, BinaryTree.node.injEq] at h <;> tauto

/-- The subtree on side `s`, empty for the empty tree. -/
def child : BinaryTree α → BinaryTree α
  | .nil => .nil
  | .node _ l r => match s with
    | .left => l
    | .right => r

@[simp] theorem child_nil : child s (.nil : BinaryTree α) = .nil := rfl

@[simp] theorem child_join : child s (join s v t u) = t := by
  cases s <;> rfl

@[simp] theorem child_flip_join : child s.flip (join s v t u) = u := by
  cases s <;> rfl

theorem eq_nil_or_join (t : BinaryTree α) : t = .nil ∨ ∃ v a b, t = join s v a b := by
  cases t with
  | nil => exact .inl rfl
  | node v l r =>
    obtain ⟨a, b, h⟩ := node_eq_join s v l r
    exact .inr ⟨v, a, b, h⟩

theorem join_child : join s v (child s (.node v l r)) (child s.flip (.node v l r)) = .node v l r := by
  cases s <;> rfl

theorem side_induction {P : BinaryTree α → Prop} (nil : P .nil)
    (node : ∀ v l r, (∀ s, P (child s (.node v l r))) → P (.node v l r)) (t : BinaryTree α) : P t := by
  induction t with
  | nil => exact nil
  | node v l r ihl ihr =>
    apply node
    intro s
    cases s
    · exact ihl
    · exact ihr

def inorder : BinaryTree α → List α
  | .nil => []
  | .node v l r => inorder l ++ v :: inorder r

@[simp] theorem inorder_nil : inorder (.nil : BinaryTree α) = [] := rfl

@[simp] theorem inorder_node : inorder (.node v l r) = inorder l ++ v :: inorder r := rfl

theorem mem_inorder_join {s : Side} {v x : α} {t u : BinaryTree α} :
    x ∈ inorder (join s v t u) ↔ x = v ∨ x ∈ inorder t ∨ x ∈ inorder u := by
  cases s <;> simp only [join, inorder_node, mem_append, mem_cons] <;> tauto

theorem inorder_join_perm : List.Perm (inorder (join s v t u)) (v :: (inorder t ++ inorder u)) := by
  cases s
  · exact perm_middle
  · exact perm_middle.trans (perm_append_comm.cons v)

/-! ## Paths -/

structure Frame (α : Type*) where
  value : α
  side : Side
  sibling : BinaryTree α

abbrev Path (α : Type*) := List (Frame α)

/-- The node of a frame, with `t` at the position. -/
def Frame.fill (f : Frame α) (t : BinaryTree α) : BinaryTree α := join f.side f.value t f.sibling

/-- The whole tree with `t` at the position. -/
def plug : Path α → BinaryTree α → BinaryTree α
  | [], t => t
  | f :: fs, t => plug fs (f.fill t)

@[simp] theorem plug_nil (t : BinaryTree α) : plug [] t = t := rfl

@[simp] theorem plug_cons (f : Frame α) (fs : Path α) (t : BinaryTree α) : plug (f :: fs) t = plug fs (f.fill t) := rfl

theorem plug_append (p q : Path α) (t : BinaryTree α) : plug (p ++ q) t = plug q (plug p t) := by
  induction p generalizing t with
  | nil => rfl
  | cons f fs ih => simpa using ih (f.fill t)

theorem plug_ne_nil (p : Path α) {t : BinaryTree α} (h : t ≠ .nil) : plug p t ≠ .nil := by
  induction p generalizing t with
  | nil => exact h
  | cons f fs ih => exact ih (join_ne_nil _ _ _ _)

def before : Path α → List α
  | [] => []
  | f :: fs => match f.side with
    | .left => before fs
    | .right => before fs ++ (inorder f.sibling ++ [f.value])

def after : Path α → List α
  | [] => []
  | f :: fs => match f.side with
    | .left => f.value :: inorder f.sibling ++ after fs
    | .right => after fs

theorem inorder_plug (p : Path α) (t : BinaryTree α) : inorder (plug p t) = before p ++ inorder t ++ after p := by
  induction p generalizing t with
  | nil => simp [before, after]
  | cons f fs ih =>
    rw [plug_cons, ih]
    obtain ⟨v, s, u⟩ := f
    cases s <;> simp [Frame.fill, join, before, after]

section Projection

variable {β : Type*} (f : α → β)

theorem map_inorder_node (v : α) (l r : BinaryTree α) :
    (inorder (.node v l r)).map f = (inorder l).map f ++ f v :: (inorder r).map f := by
  simp

theorem map_inorder_plug (p : Path α) (t : BinaryTree α) :
    (inorder (plug p t)).map f = (before p).map f ++ (inorder t).map f ++ (after p).map f := by
  simp [inorder_plug]

theorem map_inorder_plug_congr {t u : BinaryTree α} (h : (inorder t).map f = (inorder u).map f) (p : Path α) :
    (inorder (plug p t)).map f = (inorder (plug p u)).map f := by
  rw [map_inorder_plug, map_inorder_plug, h]

end Projection

theorem exists_plug_of_mem {x : α} {t : BinaryTree α} (h : x ∈ inorder t) : ∃ p l r, t = plug p (.node x l r) := by
  induction t with
  | nil => simp at h
  | node v l r ihl ihr =>
    simp only [inorder_node, mem_append, mem_cons] at h
    rcases h with h | rfl | h
    · obtain ⟨p, a, b, rfl⟩ := ihl h
      exact ⟨p ++ [⟨v, .left, r⟩], a, b, by rw [plug_append]; rfl⟩
    · exact ⟨[], l, r, rfl⟩
    · obtain ⟨p, a, b, rfl⟩ := ihr h
      exact ⟨p ++ [⟨v, .right, l⟩], a, b, by rw [plug_append]; rfl⟩

end Zipper

end OpenWifi
