import Mathlib.Tactic.Common

/-!
# Numbers that are handed out

Holders get numbers and give them back; zero stands for no number.  `Accounts taken held` says that the
numbers that are taken are those held, and that no two holders have the same one.
-/

namespace OpenWifi

open Function (update update_of_ne update_apply)

variable {α : Type*}

structure Accounts (taken : ℕ → Prop) (held : α → ℕ) : Prop where
  exact_iff : ∀ n, n ≠ 0 → (taken n ↔ ∃ a, held a = n)
  unique : ∀ a b, held a = held b → held a ≠ 0 → a = b

variable {taken taken' : ℕ → Prop} {held : α → ℕ}

theorem Accounts.of_empty (none : ∀ n, ¬ taken n) (zero : ∀ a, held a = 0) : Accounts taken held where
  exact_iff n hn := by
    refine iff_of_false (none n) ?_
    rintro ⟨a, rfl⟩
    exact hn (zero a)
  unique a _ _ hn := absurd (zero a) hn

variable [DecidableEq α]

theorem Accounts.release (h : Accounts taken held) (a : α) (freed : ∀ n, n ≠ 0 → (taken' n ↔ taken n ∧ n ≠ held a)) :
    Accounts taken' (update held a 0) where
  exact_iff n hn := by
    rw [freed n hn, h.exact_iff n hn]
    constructor
    · rintro ⟨⟨b, rfl⟩, ne⟩
      have other : b ≠ a := fun eq => ne (eq ▸ rfl)
      exact ⟨b, update_of_ne other _ _⟩
    · rintro ⟨b, eq⟩
      rw [update_apply] at eq
      split at eq
      · exact absurd eq.symm hn
      next other =>
        refine ⟨⟨b, eq⟩, fun same => other ?_⟩
        exact h.unique b a (eq.trans same) (eq ▸ hn)
  unique b c eq hn := by
    rw [update_apply] at eq hn
    rw [update_apply] at eq
    split at hn
    · exact absurd rfl hn
    next other =>
      rw [if_neg other] at eq
      split at eq
      · exact absurd eq hn
      · exact h.unique b c eq hn

theorem Accounts.assign (h : Accounts taken held) {a : α} {n : ℕ} (without : held a = 0)
    (free : ¬ taken n) (hn : n ≠ 0) (now : ∀ m, m ≠ 0 → (taken' m ↔ taken m ∨ m = n)) :
    Accounts taken' (update held a n) where
  exact_iff m hm := by
    rw [now m hm, h.exact_iff m hm]
    constructor
    · rintro (⟨b, rfl⟩ | rfl)
      · have other : b ≠ a := by
          rintro rfl
          exact hm without
        exact ⟨b, update_of_ne other _ _⟩
      · exact ⟨a, Function.update_self _ _ _⟩
    · rintro ⟨b, eq⟩
      rw [update_apply] at eq
      split at eq
      · exact .inr eq.symm
      · exact .inl ⟨b, eq⟩
  unique b c eq hb := by
    have fresh : ∀ d, held d ≠ n := fun d same => free ((h.exact_iff n hn).2 ⟨d, same⟩)
    rw [update_apply, update_apply] at eq
    rw [update_apply] at hb
    split at eq
    next here =>
      split at eq
      next there => rw [here, there]
      · exact absurd eq.symm (fresh c)
    next here =>
      rw [if_neg here] at hb
      split at eq
      · exact absurd eq (fresh b)
      · exact h.unique b c eq hb

end OpenWifi
