import Mathlib.Tactic.Common

/-!
# Memory by position

A memory gives a value to every position.  `store` copies a list into it and `slice` reads one back, so that a copy
behind the end of a buffer can be stated as well.
-/

namespace OpenWifi.Memory

open List

variable {α : Type*} {m m' : ℕ → α} {p n i : ℕ}

/-- Copy `chunk` to the positions from `p` on. -/
def store (m : ℕ → α) (p : ℕ) (chunk : List α) : ℕ → α :=
  fun i => if i < p then m i else chunk[i - p]?.getD (m i)

/-- The values at `n` positions from `p` on. -/
def slice (m : ℕ → α) (p n : ℕ) : List α := (List.range' p n).map m

variable {chunk : List α}

theorem store_outside (outside : i < p ∨ p + chunk.length ≤ i) : store m p chunk i = m i := by
  unfold store
  split
  · rfl
  · rw [getElem?_eq_none (by omega), Option.getD_none]

theorem store_inside (lower : p ≤ i) (upper : i < p + chunk.length) : some (store m p chunk i) = chunk[i - p]? := by
  have bound : i - p < chunk.length := by omega
  rw [store, if_neg (by omega), getElem?_eq_getElem bound, Option.getD_some]

theorem store_congr (same : m i = m' i) : store m p chunk i = store m' p chunk i := by
  rw [store, store, same]

theorem store_store (m : ℕ → α) (p : ℕ) (first second : List α) :
    store (store m p first) (p + first.length) second = store m p (first ++ second) := by
  funext i
  rcases Nat.lt_or_ge i (p + first.length) with before | behind
  · rw [store, if_pos before]
    unfold store
    split
    · rfl
    · rw [getElem?_append_left (by omega)]
  · rw [store, if_neg (by omega), store_outside (.inr behind), store, if_neg (by omega),
      getElem?_append_right (by omega), Nat.sub_sub]

theorem store_before (m : ℕ → α) (p : ℕ) (first second : List α) :
    store (store m (p + first.length) second) p first = store m p (first ++ second) := by
  funext i
  rw [← store_store]
  rcases Nat.lt_or_ge i (p + first.length) with before | behind
  · rw [store_outside (p := p + first.length) (.inl before)]
    exact store_congr (store_outside (.inl before))
  · rw [store_outside (p := p) (.inr behind)]
    exact store_congr (store_outside (.inr behind)).symm

@[simp] theorem length_slice (m : ℕ → α) (p n : ℕ) : (slice m p n).length = n := by
  simp [slice]

theorem slice_add (m : ℕ → α) (p a b : ℕ) : slice m p (a + b) = slice m p a ++ slice m (p + a) b := by
  simp [slice, ← map_append, range'_append_1]

theorem getElem?_slice (bound : i < n) : (slice m p n)[i]? = some (m (p + i)) := by
  simp [slice, bound]

theorem slice_congr (same : ∀ i, p ≤ i → i < p + n → m i = m' i) : slice m p n = slice m' p n := by
  refine map_congr_left fun i mem => ?_
  obtain ⟨lower, upper⟩ := mem_range'_1.1 mem
  exact same i lower upper

theorem slice_store (m : ℕ → α) (p : ℕ) (chunk : List α) : slice (store m p chunk) p chunk.length = chunk := by
  refine ext_getElem? fun i => ?_
  rcases Nat.lt_or_ge i chunk.length with inside | outside
  · rw [getElem?_slice inside, store_inside (Nat.le_add_right p i) (by omega), Nat.add_sub_cancel_left]
  · rw [getElem?_eq_none (by simpa using outside), getElem?_eq_none outside]

theorem store_slice (lower : p ≤ i) (upper : i < p + n) : store m p (slice m' p n) i = m' i := by
  refine Option.some.inj ?_
  rw [store_inside lower (by simpa using upper), getElem?_slice (by omega), Nat.add_sub_cancel' lower]

end OpenWifi.Memory
