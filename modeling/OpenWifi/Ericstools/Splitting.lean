import OpenWifi.Bwctl.Usage

/-!
# Pieces of a line

`split_on_separators` gives the pieces that it should.  The size of its array is computed in machine words, and is too
small for some limits.
-/

namespace OpenWifi.Ericstools

open List Bwctl

variable (w : ℕ) (separator : Char → Bool) (maxPieces : ℤ) (remainder : Bool) (line : List Char)

/-- The runs of other characters up to the limit, the last of them with the rest of the line where this is asked for. -/
def limitedWords : List (List Char) :=
  if maxPieces < 0 then words separator line
  else if remainder ∧ 0 < maxPieces ∧ maxPieces ≤ (words separator line).length then
    (words separator line).take (maxPieces.toNat - 1) ++ [restFrom separator (maxPieces.toNat - 1) line]
  else (words separator line).take maxPieces.toNat

/-- The bytes of the array for pointers of `w` bits; `1+max_pieces` is an `int`. -/
def arrayBytes : ℕ :=
  let limit := if maxPieces < 0 then line.countP separator + 1 else maxPieces.toNat
  ((BitVec.ofNat 32 (1 + limit)).signExtend w * BitVec.ofNat w (w / 8)).toNat

/-- The pieces are right, and they and the `NULL` behind them are inside of the array. -/
structure Splits : Prop where
  pieces : splitOnSeparators separator maxPieces remainder line = limitedWords separator maxPieces remainder line
  fits : ((splitOnSeparators separator maxPieces remainder line).length + 1) * (w / 8) ≤
    arrayBytes w separator maxPieces line

theorem splitOnSeparators_eq :
    splitOnSeparators separator maxPieces remainder line = limitedWords separator maxPieces remainder line := by
  unfold splitOnSeparators limitedWords
  split
  · rw [splitPieces_all]
  next limited =>
    obtain ⟨n, rfl⟩ := Int.eq_ofNat_of_zero_le (Int.not_lt.1 limited)
    simp [splitPieces_eq]

theorem length_limitedWords : (limitedWords separator maxPieces remainder line).length =
    if maxPieces < 0 then (words separator line).length else min maxPieces.toNat (words separator line).length := by
  unfold limitedWords
  split_ifs
  · rfl
  · simp
    omega
  · exact length_take

/-- **The array holds the pieces exactly if its bytes are enough for their number.** -/
theorem splits_iff : Splits w separator maxPieces remainder line ↔
    ((if maxPieces < 0 then (words separator line).length else min maxPieces.toNat (words separator line).length) + 1) *
      (w / 8) ≤ arrayBytes w separator maxPieces line := by
  rw [← length_limitedWords separator maxPieces remainder, ← splitOnSeparators_eq]
  exact ⟨Splits.fits, Splits.mk (splitOnSeparators_eq ..)⟩

theorem length_words_le : (words separator line).length ≤ line.countP separator + 1 := by
  refine (length_filter_le _ _).trans ?_
  induction line with
  | nil => simp
  | cons c line ih =>
    rw [splitOnP_cons_eq_if_modifyHead, countP_cons]
    split
    · simpa using ih
    · simpa using ih

/-- An array of so many pointers as are asked for, if their bytes can be counted, is enough. -/
theorem splits_of_small (wide : 32 ≤ w) {limit : ℕ}
    (asked : limit = if maxPieces < 0 then line.countP separator + 1 else maxPieces.toNat) (small : 1 + limit < 2 ^ 31)
    (room : (1 + limit) * (w / 8) < 2 ^ w) : Splits w separator maxPieces remainder line := by
  refine ⟨splitOnSeparators_eq .., ?_⟩
  have bytes : arrayBytes w separator maxPieces line = (1 + limit) * (w / 8) := by
    have positive : (BitVec.ofNat 32 (1 + limit)).msb = false := by
      rw [BitVec.msb_eq_false_iff_two_mul_lt, BitVec.toNat_ofNat, Nat.mod_eq_of_lt (by omega)]
      omega
    have word : 2 ^ 32 ≤ 2 ^ w := Nat.pow_le_pow_right (by decide) wide
    have pointer : w / 8 < 2 ^ w := (Nat.div_le_self w 8).trans_lt Nat.lt_two_pow_self
    rw [arrayBytes, ← asked, BitVec.signExtend_eq_setWidth_of_msb_false positive, BitVec.toNat_mul,
      BitVec.toNat_setWidth, BitVec.toNat_ofNat, BitVec.toNat_ofNat, Nat.mod_eq_of_lt (by omega : 1 + limit < 2 ^ 32),
      Nat.mod_eq_of_lt (by omega : 1 + limit < 2 ^ w), Nat.mod_eq_of_lt pointer, Nat.mod_eq_of_lt room]
  rw [bytes, splitOnSeparators_eq, length_limitedWords, Nat.add_comm 1]
  refine Nat.mul_le_mul_right _ (Nat.succ_le_succ ?_)
  have runs := length_words_le separator line
  rw [asked]
  split
  · exact runs
  · exact Nat.min_le_left _ _

/-- With pointers of 32 bits the array for 1073741823 pieces has no bytes. -/
theorem not_splits_many : ¬ Splits 32 (· == ' ') 1073741823 false ['a'] := by
  intro splits
  have none : arrayBytes 32 (· == ' ') 1073741823 ['a'] = 0 := by decide
  have fits := splits.fits
  omega

end OpenWifi.Ericstools
