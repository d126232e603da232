import Mathlib.Data.Nat.Bitwise

/-!
# Bit fields of a word

A field of a word of `w` bits is given by its first bit, counted from the most significant one, and its length.  `pack`
puts the values of fields into a word one after the other, as a protocol header is written; a field of a word whose
fields do not overlap is read back as it was written (`getField_pack`).
-/

namespace OpenWifi

structure BitField where
  start : ℕ
  len : ℕ
  val : ℕ
  deriving DecidableEq

def setField (w src start len val : ℕ) : ℕ := src ||| (val % 2 ^ len) <<< (w - start - len)

def getField (w src start len : ℕ) : ℕ := (src >>> (w - start - len)) % 2 ^ len

def pack (w : ℕ) (fields : List BitField) : ℕ :=
  fields.foldl (fun src f => setField w src f.start f.len f.val) 0

variable {w src start len val : ℕ}

@[simp] theorem getField_zero (w start len : ℕ) : getField w 0 start len = 0 := by simp [getField]

@[simp] theorem setField_value_zero (w src start len : ℕ) : setField w src start len 0 = src := by simp [setField]

theorem setField_lt (fits : start + len ≤ w) (lt : src < 2 ^ w) : setField w src start len val < 2 ^ w := by
  refine Nat.or_lt_two_pow lt ?_
  calc (val % 2 ^ len) <<< (w - start - len) = val % 2 ^ len * 2 ^ (w - start - len) := Nat.shiftLeft_eq _ _
    _ < 2 ^ len * 2 ^ (w - start - len) :=
      Nat.mul_lt_mul_of_pos_right (Nat.mod_lt _ (Nat.two_pow_pos len)) (Nat.two_pow_pos _)
    _ = 2 ^ (len + (w - start - len)) := (pow_add 2 _ _).symm
    _ ≤ 2 ^ w := Nat.pow_le_pow_right (by decide) (by omega)

theorem getField_setField (clear : getField w src start len = 0) :
    getField w (setField w src start len val) start len = val % 2 ^ len := by
  apply Nat.eq_of_testBit_eq
  intro i
  have clear_i : (decide (i < len) && src.testBit (w - start - len + i)) = false := by
    have bit := congrArg (Nat.testBit · i) clear
    simpa [getField, Nat.testBit_mod_two_pow, Nat.testBit_shiftRight] using bit
  simp only [getField, setField, Nat.testBit_mod_two_pow, Nat.testBit_shiftRight, Nat.testBit_or, Nat.testBit_shiftLeft,
    Nat.add_sub_cancel_left, Bool.and_or_distrib_left, clear_i, Bool.false_or]
  simp

theorem getField_setField_apart {start' len' : ℕ} (fits : start + len ≤ w) (fits' : start' + len' ≤ w)
    (apart : start + len ≤ start' ∨ start' + len' ≤ start) :
    getField w (setField w src start len val) start' len' = getField w src start' len' := by
  apply Nat.eq_of_testBit_eq
  intro i
  simp only [getField, setField, Nat.testBit_mod_two_pow, Nat.testBit_shiftRight, Nat.testBit_or, Nat.testBit_shiftLeft,
    Bool.and_or_distrib_left, Bool.or_eq_left_iff_imp]
  intro set
  simp only [Bool.and_eq_true, decide_eq_true_eq] at set
  obtain ⟨inside, at_least, below, _⟩ := set
  omega

def BitField.Apart (f g : BitField) : Prop := f.start + f.len ≤ g.start ∨ g.start + g.len ≤ f.start

variable {fields : List BitField}

theorem foldl_setField_lt (fits : ∀ f ∈ fields, f.start + f.len ≤ w) (lt : src < 2 ^ w) :
    fields.foldl (fun src f => setField w src f.start f.len f.val) src < 2 ^ w := by
  induction fields generalizing src with
  | nil => exact lt
  | cons f fields ih => exact ih (fun g mem => fits g (by simp [mem])) (setField_lt (fits f (by simp)) lt)

theorem pack_lt (fits : ∀ f ∈ fields, f.start + f.len ≤ w) : pack w fields < 2 ^ w :=
  foldl_setField_lt fits (Nat.two_pow_pos w)

theorem getField_foldl_apart {f : BitField} (fit : f.start + f.len ≤ w)
    (fits : ∀ g ∈ fields, g.start + g.len ≤ w) (apart : ∀ g ∈ fields, f.Apart g) (src : ℕ) :
    getField w (fields.foldl (fun src g => setField w src g.start g.len g.val) src) f.start f.len =
      getField w src f.start f.len := by
  induction fields generalizing src with
  | nil => rfl
  | cons g fields ih =>
    rw [List.foldl_cons, ih (fun h mem => fits h (by simp [mem])) (fun h mem => apart h (by simp [mem]))]
    exact getField_setField_apart (fits g (by simp)) fit (apart g (by simp)).symm

section

variable (fits : ∀ f ∈ fields, f.start + f.len ≤ w) (apart : fields.Pairwise BitField.Apart)
    {f : BitField} (mem : f ∈ fields)
include fits apart mem

theorem getField_foldl {src : ℕ} (clear : ∀ g ∈ fields, getField w src g.start g.len = 0) :
    getField w (fields.foldl (fun src g => setField w src g.start g.len g.val) src) f.start f.len = f.val
      % 2 ^ f.len := by
  induction fields generalizing src with
  | nil => simp at mem
  | cons g fields ih =>
    obtain ⟨first, others⟩ := List.pairwise_cons.1 apart
    have fitsRest : ∀ h ∈ fields, h.start + h.len ≤ w := fun h mem => fits h (by simp [mem])
    rw [List.foldl_cons]
    rcases List.mem_cons.1 mem with rfl | mem
    · rw [getField_foldl_apart (fits f (by simp)) fitsRest first, getField_setField (clear f (by simp))]
    · refine ih fitsRest others mem fun h memH => ?_
      rw [getField_setField_apart (fits g (by simp)) (fitsRest h memH) (first h memH)]
      exact clear h (by simp [memH])

theorem getField_pack : getField w (pack w fields) f.start f.len = f.val % 2 ^ f.len :=
  getField_foldl fits apart mem fun _ _ => getField_zero w _ _

end

end OpenWifi
