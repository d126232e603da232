import Mathlib.Data.List.Nodup

/-!
# Doubly linked cells

`Chain cells p xs q` says that the addresses of `xs` are linked in this order, that the first of them points back to `p`
and that the last one points on to `q`.
-/

namespace OpenWifi.DoublyLinked

open List

variable {ν β : Type*}

structure Cell (ν β : Type*) where
  next : Option ν
  previous : Option ν
  value : β
  deriving DecidableEq

/-- Where a chain starts that is followed by `q`. -/
def firstOf (xs : List (ν × β)) (q : Option ν) : Option ν := (xs.head?.map Prod.fst).or q

/-- Where a chain ends that is preceded by `p`. -/
def lastOf : Option ν → List (ν × β) → Option ν
  | p, [] => p
  | _, x :: xs => lastOf (some x.1) xs

@[simp] theorem firstOf_nil (q : Option ν) : firstOf ([] : List (ν × β)) q = q := rfl

@[simp] theorem firstOf_cons (x : ν × β) (xs : List (ν × β)) (q : Option ν) : firstOf (x :: xs) q = some x.1 := rfl

@[simp] theorem lastOf_nil (p : Option ν) : lastOf p ([] : List (ν × β)) = p := rfl

@[simp] theorem lastOf_cons (p : Option ν) (x : ν × β) (xs : List (ν × β)) :
    lastOf p (x :: xs) = lastOf (some x.1) xs := rfl

@[simp] theorem firstOf_append (xs ys : List (ν × β)) (q : Option ν) :
    firstOf (xs ++ ys) q = firstOf xs (firstOf ys q) := by
  cases xs <;> rfl

@[simp] theorem lastOf_append (p : Option ν) (xs ys : List (ν × β)) :
    lastOf p (xs ++ ys) = lastOf (lastOf p xs) ys := by
  induction xs generalizing p with
  | nil => rfl
  | cons x xs ih => rw [cons_append, lastOf_cons, lastOf_cons, ih]

/-- The cells of `xs` are linked in this order, between `p` and `q`. -/
def Chain (cells : ν → Option (Cell ν β)) : Option ν → List (ν × β) → Option ν → Prop
  | _, [], _ => True
  | p, x :: xs, q => cells x.1 = some ⟨firstOf xs q, p, x.2⟩ ∧ Chain cells (some x.1) xs q

variable {cells cells' : ν → Option (Cell ν β)} {p q : Option ν} {x : ν × β} {xs ys : List (ν × β)}

theorem chain_append : Chain cells p (xs ++ ys) q ↔ Chain cells p xs (firstOf ys q) ∧
    Chain cells (lastOf p xs) ys q := by
  induction xs generalizing p with
  | nil => exact (and_iff_right trivial).symm
  | cons x xs ih => simp [cons_append, Chain, firstOf_append, lastOf_cons, ih, and_assoc]

theorem chain_singleton : Chain cells p [x] q ↔ cells x.1 = some ⟨q, p, x.2⟩ := and_iff_left trivial

theorem Chain.congr (chain : Chain cells p xs q) (same : ∀ n ∈ xs.map Prod.fst, cells' n = cells n) :
    Chain cells' p xs q := by
  induction xs generalizing p with
  | nil => trivial
  | cons x xs ih =>
    obtain ⟨cell, rest⟩ := chain
    exact ⟨(same x.1 mem_cons_self).trans cell, ih rest fun n mem => same n (mem_cons_of_mem _ mem)⟩

theorem Chain.cell (chain : Chain cells p xs q) {n : ν} (mem : n ∈ xs.map Prod.fst) : ∃ c, cells n = some c := by
  induction xs generalizing p with
  | nil => exact absurd mem not_mem_nil
  | cons x xs ih =>
    rcases mem_cons.1 mem with rfl | mem
    · exact ⟨_, chain.1⟩
    · exact ih chain.2 mem

variable [DecidableEq ν]

theorem Chain.setNext (chain : Chain cells p (xs ++ [x]) q) (other : x.1 ∉ xs.map Prod.fst) (q' : Option ν) :
    Chain (Function.update cells x.1 (some ⟨q', lastOf p xs, x.2⟩)) p (xs ++ [x]) q' := by
  refine chain_append.2 ⟨(chain_append.1 chain).1.congr fun n mem => ?_, chain_singleton.2 (Function.update_self ..)⟩
  exact Function.update_of_ne (ne_of_mem_of_not_mem mem other) _ _

theorem Chain.setPrevious (chain : Chain cells p (x :: xs) q) (other : x.1 ∉ xs.map Prod.fst) (p' : Option ν) :
    Chain (Function.update cells x.1 (some ⟨firstOf xs q, p', x.2⟩)) p' (x :: xs) q := by
  refine ⟨Function.update_self .., chain.2.congr fun n mem => ?_⟩
  exact Function.update_of_ne (ne_of_mem_of_not_mem mem other) _ _

end OpenWifi.DoublyLinked
