import Mathlib.Tactic.Ring

/-!
# Numbers in memory

A number of a fixed width lies in memory as so many bytes, the low byte first or the high byte first.  What does
not fit the width is cut off.
-/

namespace OpenWifi

inductive ByteOrder
  | little
  | big
  deriving DecidableEq

def lowFirst : ℕ → ℕ → List UInt8
  | 0, _ => []
  | width + 1, n => UInt8.ofNat n :: lowFirst width (n / 256)

def ofLowFirst : List UInt8 → ℕ
  | [] => 0
  | byte :: rest => byte.toNat + 256 * ofLowFirst rest

@[simp] theorem length_lowFirst (width n : ℕ) : (lowFirst width n).length = width := by
  induction width generalizing n with
  | zero => rfl
  | succ width ih => simp [lowFirst, ih]

theorem ofLowFirst_lowFirst (width n : ℕ) : ofLowFirst (lowFirst width n) = n % 256 ^ width := by
  induction width generalizing n with
  | zero => simp [lowFirst, ofLowFirst, Nat.mod_one]
  | succ width ih =>
    rw [lowFirst, ofLowFirst, ih, UInt8.toNat_ofNat', show 256 ^ (width + 1) = 256 * 256 ^ width from Nat.pow_succ',
      Nat.mod_mul]

theorem take_lowFirst {k width : ℕ} (h : k ≤ width) (n : ℕ) : (lowFirst width n).take k = lowFirst k n := by
  induction k generalizing width n with
  | zero => simp [lowFirst]
  | succ k ih =>
    obtain ⟨width, rfl⟩ : ∃ w, width = w + 1 := ⟨width - 1, by omega⟩
    rw [lowFirst, lowFirst, List.take_succ_cons, ih (by omega)]

namespace ByteOrder

def bytes (order : ByteOrder) (width n : ℕ) : List UInt8 :=
  match order with
  | .little => lowFirst width n
  | .big => (lowFirst width n).reverse

def value (order : ByteOrder) (memory : List UInt8) : ℕ :=
  match order with
  | .little => ofLowFirst memory
  | .big => ofLowFirst memory.reverse

variable (order : ByteOrder)

@[simp] theorem length_bytes (width n : ℕ) : (order.bytes width n).length = width := by
  cases order <;> simp [bytes]

theorem value_bytes (width n : ℕ) : order.value (order.bytes width n) = n % 256 ^ width := by
  cases order with
  | little => exact ofLowFirst_lowFirst width n
  | big => simp [value, bytes, List.reverse_reverse, ofLowFirst_lowFirst]

theorem value_bytes_of_lt {width n : ℕ} (h : n < 256 ^ width) : order.value (order.bytes width n) = n := by
  rw [value_bytes, Nat.mod_eq_of_lt h]

end ByteOrder

end OpenWifi
