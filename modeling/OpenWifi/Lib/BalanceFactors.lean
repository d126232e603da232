import OpenWifi.Lib.Zipper
import Mathlib.Tactic.Linarith

/-!
# Trees with balance factors

Every node of a `BTree` stores a balance factor, the height on the right minus the height on the left.  Whether a tree
with a subtree in a hole is balanced depends on the height of this subtree only (`isBalanced_plug`).
-/

namespace OpenWifi.Balance

open Zipper

structure Weighted (κ : Type*) where
  core : κ
  balance : ℤ
  deriving DecidableEq

abbrev BTree (κ : Type*) := BinaryTree (Weighted κ)

variable {κ : Type*}

def sign : Side → ℤ
  | .left => -1
  | .right => 1

@[simp] theorem sign_flip (s : Side) : sign s.flip = -sign s := by cases s <;> rfl

@[simp] theorem sign_mul_sign_mul (s : Side) (d : ℤ) : sign s * (sign s * d) = d := by
  cases s <;> simp [sign]

@[simp] theorem sign_mul_eq_zero {s : Side} {d : ℤ} : sign s * d = 0 ↔ d = 0 := by
  cases s <;> simp [sign]

def balanceOf : BTree κ → ℤ
  | .nil => 0
  | .node v _ _ => v.balance

@[simp] theorem balanceOf_join (s : Side) (v : Weighted κ) (t u : BTree κ) : balanceOf (join s v t u) = v.balance := by
  cases s <;> rfl

@[simp] theorem height_join (s : Side) (v : Weighted κ) (t u : BTree κ) :
    (join s v t u).height = max t.height u.height + 1 := by
  cases s
  · rfl
  · exact congrArg (· + 1) (max_comm _ _)

def cores (t : BTree κ) : List κ := (inorder t).map Weighted.core

@[simp] theorem cores_nil : cores (.nil : BTree κ) = [] := rfl

@[simp] theorem cores_node (v : Weighted κ) (l r : BTree κ) : cores (.node v l r) = cores l ++ v.core :: cores r :=
  map_inorder_node ..

theorem cores_plug (p : Path (Weighted κ)) (t : BTree κ) :
    cores (plug p t) = (before p).map Weighted.core ++ cores t ++ (after p).map Weighted.core :=
  map_inorder_plug ..

theorem cores_plug_congr {t u : BTree κ} (h : cores t = cores u) (p : Path (Weighted κ)) :
    cores (plug p t) = cores (plug p u) :=
  map_inorder_plug_congr _ h p

theorem cores_join_congr {s : Side} {v w : Weighted κ} {t t' u u' : BTree κ} (core : v.core = w.core)
    (first : cores t = cores t') (second : cores u = cores u') : cores (join s v t u) = cores (join s w t' u') := by
  cases s <;> simp [join, core, first, second]

theorem cores_raise {s : Side} {x x' y y' : Weighted κ} (a b c : BTree κ) (hx : x'.core = x.core)
    (hy : y'.core = y.core) :
    cores (join s y' a (join s x' b c)) = cores (join s x (join s y a b) c) := by
  cases s <;> simp [join, hx, hy]

/-! ## Balanced trees -/

def IsBalanced : BTree κ → Prop
  | .nil => True
  | .node v l r => v.balance = (r.height : ℤ) - l.height ∧ (-1 ≤ v.balance ∧ v.balance ≤ 1) ∧
    IsBalanced l ∧ IsBalanced r

@[simp] theorem isBalanced_nil : IsBalanced (.nil : BTree κ) := trivial

theorem isBalanced_join {s : Side} {v : Weighted κ} {t u : BTree κ} : IsBalanced (join s v t u) ↔
      v.balance = sign s * ((t.height : ℤ) - u.height) ∧
      (-1 ≤ (t.height : ℤ) - u.height ∧ (t.height : ℤ) - u.height ≤ 1) ∧
        IsBalanced t ∧ IsBalanced u := by
  cases s with
  | left =>
    have factor : v.balance = (u.height : ℤ) - t.height ↔ v.balance = -1 * ((t.height : ℤ) - u.height) := by omega
    rw [join, IsBalanced, sign, ← factor]
    refine and_congr_right fun value => and_congr_left fun _ => ?_
    omega
  | right =>
    have factor : v.balance = (t.height : ℤ) - u.height ↔ v.balance = 1 * ((t.height : ℤ) - u.height) := by omega
    rw [join, IsBalanced, sign, ← factor, and_comm (a := IsBalanced u)]
    refine and_congr_right fun value => and_congr_left fun _ => ?_
    omega

theorem IsBalanced.balanceOf_le {t : BTree κ} (h : IsBalanced t) : -1 ≤ balanceOf t ∧ balanceOf t ≤ 1 := by
  cases t with
  | nil => simp [balanceOf]
  | node v l r => exact h.2.1

/-- The siblings along a path are balanced, and the factors along it are right for a subtree of height `h` at the
position. -/
def Fits : Path (Weighted κ) → ℕ → Prop
  | [], _ => True
  | f :: fs, h =>
    f.value.balance = sign f.side * ((h : ℤ) - f.sibling.height) ∧
      (-1 ≤ (h : ℤ) - f.sibling.height ∧ (h : ℤ) - f.sibling.height ≤ 1) ∧ IsBalanced f.sibling ∧
      Fits fs (max h f.sibling.height + 1)

theorem isBalanced_plug {p : Path (Weighted κ)} {t : BTree κ} :
    IsBalanced (plug p t) ↔ IsBalanced t ∧ Fits p t.height := by
  induction p generalizing t with
  | nil => simp [Fits]
  | cons f fs ih =>
    rw [plug_cons, ih, Frame.fill, isBalanced_join, height_join, Fits]
    tauto

theorem fits_append {p q : Path (Weighted κ)} {t : BTree κ} :
    Fits (p ++ q) t.height ↔ Fits p t.height ∧ Fits q (plug p t).height := by
  induction p generalizing t with
  | nil => simp [Fits]
  | cons f fs ih =>
    have rest := ih (t := f.fill t)
    rw [Frame.fill, height_join] at rest
    rw [List.cons_append, Fits, Fits, plug_cons, rest, Frame.fill]
    tauto

section Rotations

variable {s : Side} {x y z : κ} {a b c p q : BTree κ}

theorem isBalanced_single {k : ℤ} (ha : IsBalanced a) (hb : IsBalanced b) (hc : IsBalanced c)
    (inner : (b.height : ℤ) = a.height - k) (two : a.height = c.height + 1) (k_eq : k = 0 ∨ k = 1) :
    IsBalanced (join s ⟨y, sign s * (k - 1)⟩ a (join s ⟨x, sign s * (1 - k)⟩ b c)) := by
  have child : (b.height : ℤ) - c.height = 1 - k := by omega
  have root : (a.height : ℤ) - (max b.height c.height + 1 : ℕ) = k - 1 := by
    push_cast
    omega
  rw [isBalanced_join, isBalanced_join, height_join, child, root]
  exact ⟨rfl, by omega, ha, rfl, by omega, hb, hc⟩

theorem isBalanced_double {w : ℤ} (ha : IsBalanced a) (hp : IsBalanced p) (hq : IsBalanced q) (hc : IsBalanced c)
    (factor : sign s * w = (p.height : ℤ) - q.height)
    (level : -1 ≤ (p.height : ℤ) - q.height ∧ (p.height : ℤ) - q.height ≤ 1)
    (outer : a.height = max p.height q.height) (two : c.height = max p.height q.height) :
    IsBalanced (join s ⟨z, 0⟩ (join s ⟨y, sign s * if sign s * w < 0 then 1 else 0⟩ a p)
      (join s ⟨x, sign s * if 0 < sign s * w then -1 else 0⟩ q c)) := by
  have first : (a.height : ℤ) - p.height = if sign s * w < 0 then 1 else 0 := by
    rw [factor]
    split <;> omega
  have second : (q.height : ℤ) - c.height = if 0 < sign s * w then -1 else 0 := by
    rw [factor]
    split <;> omega
  have root : ((max a.height p.height + 1 : ℕ) : ℤ) - (max q.height c.height + 1 : ℕ) = 0 := by
    push_cast
    omega
  rw [isBalanced_join, isBalanced_join, isBalanced_join, height_join, height_join, root, first, second]
  refine ⟨by simp, by omega, ⟨rfl, ?_, ha, hp⟩, rfl, ?_, hq, hc⟩
  · split <;> omega
  · split <;> omega

end Rotations

end OpenWifi.Balance
