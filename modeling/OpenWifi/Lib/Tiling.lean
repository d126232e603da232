import Mathlib.Algebra.Order.BigOperators.Group.List
import Mathlib.Tactic.Ring

/-!
# Tilings of an interval

`Tiles` says that each of a list of pieces starts where the one before it ends.
-/

namespace OpenWifi

open List

variable {π α : Type*} (offset : π → ℕ) (contents : π → List α)

def pieceEnd (p : π) : ℕ := offset p + (contents p).length

/-- The pieces fill the interval from `lo` to `hi`, from the left to the right. -/
def Tiles : ℕ → List π → ℕ → Prop
  | lo, [], hi => lo = hi
  | lo, p :: rest, hi => offset p = lo ∧ Tiles (pieceEnd offset contents p) rest hi

def Apart (ps : List π) : Prop := ps.Pairwise fun p q => pieceEnd offset contents p ≤ offset q

variable {offset contents} {ps : List π} {lo hi : ℕ}

theorem tiles_concat {p : π} : Tiles offset contents lo (ps ++ [p]) hi ↔
    Tiles offset contents lo ps (offset p) ∧ pieceEnd offset contents p = hi := by
  induction ps generalizing lo with
  | nil => exact and_congr_left' eq_comm
  | cons q rest ih => exact (and_congr_right' ih).trans and_assoc.symm

theorem Apart.sum_le (apart : Apart offset contents ps) (le : lo ≤ hi)
    (lower : ∀ p ∈ ps, lo ≤ offset p) (upper : ∀ p ∈ ps, pieceEnd offset contents p ≤ hi) :
    lo + (ps.map fun p => (contents p).length).sum ≤ hi := by
  induction ps generalizing lo with
  | nil => simpa using le
  | cons p rest ih =>
    obtain ⟨first, others⟩ := pairwise_cons.1 apart
    have next := ih others (upper p (by simp)) first fun q mem => upper q (by simp [mem])
    have start := lower p (by simp)
    rw [map_cons, sum_cons]
    unfold pieceEnd at next
    omega

theorem tiles_of_apart (apart : Apart offset contents ps) (lower : ∀ p ∈ ps, lo ≤ offset p)
    (upper : ∀ p ∈ ps, pieceEnd offset contents p ≤ hi)
    (full : lo + (ps.map fun p => (contents p).length).sum = hi) : Tiles offset contents lo ps hi := by
  induction ps generalizing lo with
  | nil => simpa [Tiles] using full
  | cons p rest ih =>
    obtain ⟨first, others⟩ := pairwise_cons.1 apart
    have below : ∀ q ∈ rest, pieceEnd offset contents q ≤ hi := fun q mem => upper q (by simp [mem])
    have next := Apart.sum_le others (upper p (by simp)) first below
    have start := lower p (by simp)
    rw [map_cons, sum_cons] at full
    unfold pieceEnd at next
    refine ⟨by omega, ih others first below ?_⟩
    unfold pieceEnd
    omega

section

variable (h : Tiles offset contents lo ps hi)
include h

theorem Tiles.le : lo ≤ hi := by
  induction ps generalizing lo with
  | nil => exact le_of_eq h
  | cons p rest ih =>
    have := ih h.2
    have := h.1
    unfold pieceEnd at *
    omega

theorem Tiles.sum_eq : lo + (ps.map fun p => (contents p).length).sum = hi := by
  induction ps generalizing lo with
  | nil => simpa [Tiles] using h
  | cons p rest ih =>
    obtain ⟨start, tiles⟩ := h
    have := ih tiles
    simp only [map_cons, sum_cons]
    unfold pieceEnd at this
    omega

theorem Tiles.length_flatMap : lo + (ps.flatMap contents).length = hi := by
  rw [List.length_flatMap]
  exact h.sum_eq

theorem Tiles.bounds : ∀ p ∈ ps, lo ≤ offset p ∧ pieceEnd offset contents p ≤ hi := by
  induction ps generalizing lo with
  | nil => simp
  | cons p rest ih =>
    obtain ⟨start, tiles⟩ := h
    intro q mem
    rcases mem_cons.1 mem with rfl | mem
    · exact ⟨start.ge, tiles.le⟩
    · obtain ⟨lower, upper⟩ := ih tiles q mem
      refine ⟨?_, upper⟩
      unfold pieceEnd at lower
      omega

theorem Tiles.apart : Apart offset contents ps := by
  induction ps generalizing lo with
  | nil => exact List.Pairwise.nil
  | cons p rest ih => exact pairwise_cons.2 ⟨fun q mem => (h.2.bounds q mem).1, ih h.2⟩

theorem Tiles.cover {x : ℕ} (lower : lo ≤ x) (upper : x < hi) :
    ∃ p ∈ ps, offset p ≤ x ∧ x < pieceEnd offset contents p := by
  induction ps generalizing lo with
  | nil =>
    obtain rfl : lo = hi := h
    omega
  | cons p rest ih =>
    by_cases here : x < pieceEnd offset contents p
    · exact ⟨p, by simp, h.1 ▸ lower, here⟩
    · obtain ⟨q, mem, found⟩ := ih h.2 (not_lt.1 here)
      exact ⟨q, by simp [mem], found⟩

theorem Tiles.getElem?_flatMap {p : π} (mem : p ∈ ps) {k : ℕ} (within : k < (contents p).length) :
    (ps.flatMap contents)[offset p - lo + k]? = (contents p)[k]? := by
  induction ps generalizing lo with
  | nil => simp at mem
  | cons q rest ih =>
    obtain ⟨start, tiles⟩ := h
    rw [flatMap_cons]
    rcases mem_cons.1 mem with rfl | mem
    · rw [start, Nat.sub_self, Nat.zero_add, getElem?_append_left within]
    · have later := (tiles.bounds p mem).1
      unfold pieceEnd at later
      rw [getElem?_append_right (by omega), ← ih tiles mem]
      congr 1
      unfold pieceEnd
      omega

end

end OpenWifi
