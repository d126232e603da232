import Mathlib.Tactic.Common

/-!
# Association identifiers

The identifiers of the stations of a WLAN are kept in a bit field of 63 words, bit `aid - 1` for the identifier `aid`.
-/

namespace OpenWifi.Ieee80211

open Option BitVec
open List

/-- `IEEE80211_AID_MAX_VALUE`. -/
def aidMaxValue : ℕ := 2007

/-- `IEEE80211_AID_BITFIELD_SIZE`. -/
def aidBitfieldSize : ℕ := 63

/-- The inner loop of `ieee80211_aid_create`: the first clear bit of a word. -/
def freeBit (bitfield : BitVec 32) : Option ℕ :=
  (List.range 32).find? fun j => bitfield &&& (1#32 <<< j) = 0

/-- The outer loop of `ieee80211_aid_create`, at word `i`.  Only the first word that is not full is
looked at. -/
def aidCreateFrom : ℕ → List (BitVec 32) → List (BitVec 32) × Option ℕ
  | _, [] => ([], none)
  | i, word :: rest =>
    if word ≠ 0xffffffff#32 then
      match freeBit word with
      | some j =>
        if i * 32 + j + 1 ≤ aidMaxValue then
          ((word ||| (1#32 <<< j)) :: rest, some (i * 32 + j + 1))
        else (word :: rest, none)
      | none => (word :: rest, none)
    else
      let (rest, aid) := aidCreateFrom (i + 1) rest
      (word :: rest, aid)

variable (aidbitfield : List (BitVec 32))

/-- `ieee80211_aid_create`: the new bit field, and the identifier unless there is none. -/
def aidCreate : List (BitVec 32) × Option ℕ :=
  aidCreateFrom 0 aidbitfield

/-- `ieee80211_aid_free`. -/
def aidFree (aid : ℕ) : List (BitVec 32) :=
  aidbitfield.modify ((aid - 1) / 32) fun word => word &&& ~~~(1#32 <<< ((aid - 1) % 32))

/-- Bit `n` of the field. -/
def bit (n : ℕ) : Bool :=
  (aidbitfield.getD (n / 32) 0).getLsbD (n % 32)

/-- The identifier `aid` is taken. -/
def AidSet (aid : ℕ) : Prop := aid ≠ 0 ∧ bit aidbitfield (aid - 1)
  deriving Decidable

def noAids : List (BitVec 32) := List.replicate aidBitfieldSize 0

/-! ## One word -/

theorem getLsbD_shifted (j k : ℕ) (hj : j < 32) : (1#32 <<< j).getLsbD k = decide (k = j) := by
  rw [← twoPow_eq, getLsbD_twoPow]
  simp [hj, eq_comm]

variable (word : BitVec 32)

theorem getLsbD_set {j : ℕ} (hj : j < 32) (k : ℕ) :
    (word ||| (1#32 <<< j)).getLsbD k = (word.getLsbD k || decide (k = j)) := by
  rw [getLsbD_or, getLsbD_shifted j k hj]

theorem getLsbD_clear {j k : ℕ} (hj : j < 32) (hk : k < 32) :
    (word &&& ~~~(1#32 <<< j)).getLsbD k = (word.getLsbD k && !decide (k = j)) := by
  rw [getLsbD_and, getLsbD_not, getLsbD_shifted j k hj]
  simp [hk]

theorem and_shifted_eq_zero {j : ℕ} (hj : j < 32) : word &&& (1#32 <<< j) = 0 ↔ word.getLsbD j = false := by
  have one : twoPow 32 j ≠ 0#32 := by
    intro zero
    have bit := congrArg (getLsbD · j) zero
    simp [hj] at bit
  rw [← twoPow_eq, and_twoPow]
  cases word.getLsbD j <;> simp [one]

theorem getLsbD_full {k : ℕ} (hk : k < 32) : (0xffffffff#32).getLsbD k = true := by
  rw [show (0xffffffff#32) = allOnes 32 from rfl, getLsbD_allOnes]
  simpa using hk

theorem freeBit_eq_some {word : BitVec 32} {j : ℕ} (h : freeBit word = some j) :
    j < 32 ∧ word.getLsbD j = false ∧ ∀ k < j, word.getLsbD k = true := by
  obtain ⟨clear, small, earlier⟩ := find?_range_eq_some.1 h
  have small : j < 32 := mem_range.1 small
  refine ⟨small, (and_shifted_eq_zero word small).1 (by simpa using clear), fun k hk => ?_⟩
  have set := earlier k hk
  have not_zero : ¬ word &&& (1#32 <<< k) = 0 := by simpa using set
  rw [and_shifted_eq_zero word (by omega)] at not_zero
  simpa using not_zero

theorem freeBit_eq_none {word : BitVec 32} (h : freeBit word = none) : word = 0xffffffff#32 := by
  have set := find?_range_eq_none.1 h
  apply eq_of_getLsbD_eq
  intro k hk
  have not_zero : ¬ word &&& (1#32 <<< k) = 0 := by simpa using set k hk
  rw [and_shifted_eq_zero word hk] at not_zero
  rw [getLsbD_full hk]
  simpa using not_zero

/-! ## The field -/

theorem bit_cons_low (rest : List (BitVec 32)) {n : ℕ} (h : n < 32) : bit (word :: rest) n = word.getLsbD n := by
  simp [bit, Nat.div_eq_of_lt h, Nat.mod_eq_of_lt h]

theorem bit_cons_high (rest : List (BitVec 32)) (n : ℕ) : bit (word :: rest) (n + 32) = bit rest n := by
  simp [bit, Nat.add_div_right]

theorem forall_bit_cons {P : ℕ → Prop} (low : ∀ n < 32, P n) (high : ∀ n, P (n + 32)) (n : ℕ) : P n := by
  by_cases h : n < 32
  · exact low n h
  · have := high (n - 32)
    rwa [Nat.sub_add_cancel (by omega)] at this

theorem aidCreateFrom_eq_some {i aid : ℕ} {b b' : List (BitVec 32)} (h : aidCreateFrom i b = (b', some aid)) :
    ∃ n, aid = i * 32 + n + 1 ∧ aid ≤ aidMaxValue ∧ bit b n = false ∧ ∀ m, bit b' m = (bit b m || decide (m = n)) := by
  induction b generalizing i b' with
  | nil => simp [aidCreateFrom] at h
  | cons word rest ih =>
    rw [aidCreateFrom] at h
    split at h
    · cases found : freeBit word with
      | none => simp [found] at h
      | some j =>
        obtain ⟨small, clear, -⟩ := freeBit_eq_some found
        simp only [found] at h
        split at h
        · simp only [Prod.mk.injEq, some.injEq] at h
          obtain ⟨rfl, rfl⟩ := h
          refine ⟨j, rfl, by assumption, by rw [bit_cons_low _ _ small]; exact clear, ?_⟩
          refine forall_bit_cons (fun m hm => ?_) (fun m => ?_)
          · rw [bit_cons_low _ _ hm, bit_cons_low _ _ hm, getLsbD_set word small]
          · rw [bit_cons_high, bit_cons_high, decide_eq_false (by omega), Bool.or_false]
        · simp at h
    · simp only [Prod.mk.injEq] at h
      obtain ⟨rfl, rest_some⟩ := h
      obtain ⟨n, rfl, bound, clear, others⟩ := ih (Prod.ext rfl rest_some)
      refine ⟨n + 32, by omega, bound, by rw [bit_cons_high]; exact clear, ?_⟩
      refine forall_bit_cons (fun m hm => ?_) (fun m => ?_)
      · rw [bit_cons_low _ _ hm, bit_cons_low _ _ hm, decide_eq_false (by omega), Bool.or_false]
      · rw [bit_cons_high, bit_cons_high, others]
        simp

theorem bit_of_aidCreateFrom_eq_none {i : ℕ} {b : List (BitVec 32)}
    (h : (aidCreateFrom i b).2 = none) {n : ℕ} (hn : n < b.length * 32) (max : i * 32 + n < aidMaxValue) :
    bit b n = true := by
  induction b generalizing i n with
  | nil => simp at hn
  | cons word rest ih =>
    rw [aidCreateFrom] at h
    split at h
    · cases found : freeBit word with
      | none => exact absurd (freeBit_eq_none found) (by assumption)
      | some j =>
        obtain ⟨small, -, earlier⟩ := freeBit_eq_some found
        simp only [found] at h
        split at h
        · simp at h
        · rw [bit_cons_low _ _ (by omega)]
          exact earlier n (by omega)
    case isFalse full =>
      have full : word = 0xffffffff#32 := by simpa using full
      revert hn max
      refine forall_bit_cons (P := fun n => n < _ → i * 32 + n < aidMaxValue → bit (word :: rest) n = true)
        (fun m hm _ _ => ?_) (fun m hm max => ?_) n
      · rw [bit_cons_low _ _ hm, full, getLsbD_full hm]
      · rw [bit_cons_high]
        rw [length_cons] at hm
        exact ih h (by omega) (by omega)

theorem aidCreate_eq_some {b b' : List (BitVec 32)} {aid : ℕ} (h : aidCreate b = (b', some aid)) :
    aid ≠ 0 ∧ aid ≤ aidMaxValue ∧ ¬ AidSet b aid ∧ ∀ a, AidSet b' a ↔ AidSet b a ∨ a = aid := by
  obtain ⟨n, rfl, bound, clear, others⟩ := aidCreateFrom_eq_some h
  refine ⟨by omega, bound, by simp [AidSet, clear], fun a => ?_⟩
  have same : a ≠ 0 → (a - 1 = n ↔ a = 0 * 32 + n + 1) := by omega
  simp only [AidSet, others, Bool.or_eq_true, decide_eq_true_eq]
  grind

theorem aidSet_aidFree {b : List (BitVec 32)} {aid : ℕ} (pos : aid ≠ 0) (a : ℕ) :
    AidSet (aidFree b aid) a ↔ AidSet b a ∧ a ≠ aid := by
  have word : ∀ n : ℕ, bit (aidFree b aid) n = (bit b n && !decide (n = aid - 1)) := by
    intro n
    simp only [bit, aidFree, getD_eq_getElem?_getD, getElem?_modify]
    by_cases e : (aid - 1) / 32 = n / 32
    · cases here : b[n / 32]? with
      | none => simp
      | some w =>
        simp only [e, if_true, Option.map_eq_map, map_some, getD_some]
        rw [getLsbD_clear w (Nat.mod_lt _ (by omega)) (Nat.mod_lt _ (by omega))]
        congr 2
        rw [decide_eq_decide]
        omega
    · have ne : n ≠ aid - 1 := fun h => e (by rw [h])
      simp [e, ne]
  have same : a ≠ 0 → (a - 1 = aid - 1 ↔ a = aid) := by omega
  simp only [AidSet, word, Bool.and_eq_true, Bool.not_eq_true', decide_eq_false_iff_not]
  grind

theorem not_aidSet_noAids (a : ℕ) : ¬ AidSet noAids a := by
  simp only [AidSet, bit, noAids, getD_eq_getElem?_getD, getElem?_replicate]
  split <;> simp

end OpenWifi.Ieee80211
