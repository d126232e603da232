import Mathlib.Order.Lattice

/-!
# Loops run on fuel

A loop that may not end is modelled as a function of an amount of fuel that answers `none` when the fuel runs out.
`Returns f a` says that the loop ends with the answer `a`: every sufficiently large amount of fuel gives it.
-/

namespace OpenWifi

open Option

variable {α β : Type*}

/-- The computation `f` ends with the answer `a`. -/
def Returns (f : ℕ → Option α) (a : α) : Prop := ∃ n, ∀ m, n ≤ m → f m = some a

variable {f : ℕ → Option α} {a : α}

theorem Returns.of_forall (h : ∀ n, f n = some a) : Returns f a :=
  ⟨0, fun m _ => h m⟩

theorem Returns.unique {a b : α} (ha : Returns f a) (hb : Returns f b) : a = b := by
  obtain ⟨n, hn⟩ := ha
  obtain ⟨m, hm⟩ := hb
  have h := (hn _ (le_max_left n m)).symm.trans (hm _ (le_max_right n m))
  exact some.inj h

theorem Returns.bind {g : ℕ → α → Option β} {b : β} (hf : Returns f a)
    (hg : Returns (fun n => g n a) b) : Returns (fun n => (f n).bind (g n)) b := by
  obtain ⟨n, hn⟩ := hf
  obtain ⟨m, hm⟩ := hg
  refine ⟨max n m, fun k hk => ?_⟩
  have h := hn k (le_trans (le_max_left n m) hk)
  simp only [h, bind_some]
  exact hm k (le_trans (le_max_right n m) hk)

theorem Returns.step {f g : ℕ → Option α} (h : Returns g a) (e : ∀ n, f (n + 1) = g n) : Returns f a := by
  obtain ⟨n, hn⟩ := h
  refine ⟨n + 1, fun m hm => ?_⟩
  obtain ⟨k, rfl⟩ : ∃ k, m = k + 1 := ⟨m - 1, by omega⟩
  rw [e]
  exact hn k (by omega)

theorem Returns.map (h : Returns f a) (g : α → β) : Returns (fun n => (f n).map g) (g a) := by
  obtain ⟨n, hn⟩ := h
  exact ⟨n, fun m hm => congrArg (Option.map g) (hn m hm)⟩

theorem not_returns (h : ∀ n, f n = none) (a : α) : ¬ Returns f a := by
  rintro ⟨n, hn⟩
  have := hn n le_rfl
  rw [h] at this
  exact absurd this (by simp)

theorem Returns.of_map {g : α → β} {b : β} (injective : Function.Injective g)
    (h : Returns (fun n => (f n).map g) b) : ∃ a, Returns f a ∧ g a = b := by
  obtain ⟨n, hn⟩ := h
  obtain ⟨a, -, rfl⟩ := map_eq_some_iff.1 (hn n le_rfl)
  exact ⟨a, ⟨n, fun m hm => map_injective injective (hn m hm)⟩, rfl⟩

end OpenWifi
