import Mathlib.Data.List.Basic

/-!
# Merging ranges of numbers

`mergeSpans` joins ranges that overlap or touch, in one pass over ranges sorted by their starts.
-/

namespace OpenWifi

open List

/-- The numbers from `start` to `stop`, both included. -/
structure Span where
  start : ℕ
  stop : ℕ

namespace Span

instance : Membership ℕ Span := ⟨fun s x => s.start ≤ x ∧ x ≤ s.stop⟩

theorem mem_iff {s : Span} {x : ℕ} : x ∈ s ↔ s.start ≤ x ∧ x ≤ s.stop := Iff.rfl

def Apart (a b : Span) : Prop := a.stop + 1 < b.start

end Span

def mergeSpans : Span → List Span → List Span
  | current, [] => [current]
  | current, next :: rest =>
    if current.stop + 1 < next.start then current :: mergeSpans next rest
    else mergeSpans ⟨current.start, max current.stop next.stop⟩ rest

variable {rest : List Span} {current : Span}

theorem forall_mergeSpans {P : Span → Prop} (join : ∀ a b : Span, P a → P ⟨a.start, max a.stop b.stop⟩) (h : P current)
    (hrest : ∀ s ∈ rest, P s) : ∀ s ∈ mergeSpans current rest, P s := by
  induction rest generalizing current with
  | nil => simpa [mergeSpans] using h
  | cons next rest ih =>
    obtain ⟨first, others⟩ := forall_mem_cons.1 hrest
    rw [mergeSpans]
    split
    · exact forall_mem_cons.2 ⟨h, ih first others⟩
    · exact ih (join current next h) others

theorem le_start_mergeSpans {low : ℕ} (h : low ≤ current.start) (hrest : ∀ s ∈ rest, low ≤ s.start) :
    ∀ s ∈ mergeSpans current rest, low ≤ s.start :=
  forall_mergeSpans (fun _ _ h => h) h hrest

theorem apart_mergeSpans (sorted : (current :: rest).Pairwise fun a b => a.start ≤ b.start) :
    (mergeSpans current rest).Pairwise Span.Apart := by
  induction rest generalizing current with
  | nil => simp [mergeSpans]
  | cons next rest ih =>
    obtain ⟨first, tail⟩ := pairwise_cons.1 sorted
    obtain ⟨second, others⟩ := pairwise_cons.1 tail
    rw [mergeSpans]
    split
    case isTrue gap =>
      refine pairwise_cons.2 ⟨fun s mem => ?_, ih tail⟩
      exact Nat.lt_of_lt_of_le gap (le_start_mergeSpans (Nat.le_refl _) second s mem)
    case isFalse => exact ih (pairwise_cons.2 ⟨fun s mem => first s (by simp [mem]), others⟩)

theorem start_le_stop_mergeSpans (h : current.start ≤ current.stop) (hrest : ∀ s ∈ rest, s.start ≤ s.stop) :
    ∀ s ∈ mergeSpans current rest, s.start ≤ s.stop :=
  forall_mergeSpans (fun _ _ h => Nat.le_trans h (Nat.le_max_left ..)) h hrest

theorem mem_mergeSpans (sorted : (current :: rest).Pairwise fun a b => a.start ≤ b.start) (x : ℕ) :
    (∃ s ∈ mergeSpans current rest, x ∈ s) ↔ ∃ s ∈ current :: rest, x ∈ s := by
  induction rest generalizing current with
  | nil => simp [mergeSpans]
  | cons next rest ih =>
    obtain ⟨first, tail⟩ := pairwise_cons.1 sorted
    obtain ⟨second, others⟩ := pairwise_cons.1 tail
    rw [mergeSpans]
    split
    case isTrue gap =>
      have := ih tail
      simp only [exists_mem_cons_iff] at this ⊢
      rw [this]
    case isFalse touch =>
      have joined : (⟨current.start, max current.stop next.stop⟩ :: rest).Pairwise fun a b : Span =>
        a.start ≤ b.start :=
        pairwise_cons.2 ⟨fun s mem => first s (by simp [mem]), others⟩
      have join := ih joined
      have union : x ∈ (⟨current.start, max current.stop next.stop⟩ : Span) ↔ x ∈ current ∨ x ∈ next := by
        have := first next (by simp)
        simp only [Span.mem_iff]
        omega
      simp only [exists_mem_cons_iff] at join ⊢
      rw [join, union, or_assoc]

end OpenWifi
