import Mathlib.Data.List.Basic
import Mathlib.Tactic.Ring

/-!
# Byte buffers

A buffer is the list of the bytes written so far.  `writeAt` is a copy into the buffer that may overwrite what is
there and may extend it; numbers are stored in network order.
-/

namespace OpenWifi

open List

variable {α : Type*}

/-- Copy `chunk` into `buf` at the position `pos`. -/
def writeAt (buf : List α) (pos : ℕ) (chunk : List α) : List α :=
  buf.take pos ++ chunk ++ buf.drop (pos + chunk.length)

@[simp] theorem writeAt_nil (buf : List α) (pos : ℕ) : writeAt buf pos [] = buf := by
  simp [writeAt]

theorem writeAt_end (buf chunk : List α) : writeAt buf buf.length chunk = buf ++ chunk := by
  simp [writeAt]

variable {buf : List α} {pos : ℕ}

theorem length_writeAt (h : pos ≤ buf.length) (chunk : List α) :
    (writeAt buf pos chunk).length = max buf.length (pos + chunk.length) := by
  simp only [writeAt, length_append, length_take, length_drop]
  omega

variable {chunk : List α}

theorem length_writeAt_within (h : pos + chunk.length ≤ buf.length) : (writeAt buf pos chunk).length = buf.length := by
  rw [length_writeAt (by omega)]
  omega

theorem getElem?_writeAt (h : pos ≤ buf.length) (chunk : List α) (j : ℕ) :
    (writeAt buf pos chunk)[j]? = if pos ≤ j ∧ j < pos + chunk.length then chunk[j - pos]? else buf[j]? := by
  have start : (buf.take pos).length = pos := by simp [h]
  unfold writeAt
  split
  case isTrue inside => rw [append_assoc, getElem?_append_right (by omega), start, getElem?_append_left (by omega)]
  case isFalse outside =>
    rcases Nat.lt_or_ge j pos with before | after
    · rw [append_assoc, getElem?_append_left (by omega), getElem?_take_of_lt before]
    · rw [getElem?_append_right (by simp only [length_append, start]; omega), getElem?_drop]
      simp only [length_append, start]
      congr 1
      omega

theorem writeAt_append_left {a : List α} (h : pos + chunk.length ≤ a.length) (b : List α) :
    writeAt (a ++ b) pos chunk = writeAt a pos chunk ++ b := by
  unfold writeAt
  rw [take_append_of_le_length (by omega), drop_append_of_le_length h]
  simp [append_assoc]

theorem writeAt_append_right (a b : List α) (k : ℕ) (chunk : List α) :
    writeAt (a ++ b) (a.length + k) chunk = a ++ writeAt b k chunk := by
  unfold writeAt
  rw [take_length_add_append, Nat.add_assoc, drop_length_add_append]
  simp [append_assoc]

theorem take_writeAt {pos d : ℕ} (low : d ≤ pos) (h : pos ≤ buf.length)
    (chunk : List α) : (writeAt buf pos chunk).take d = buf.take d := by
  unfold writeAt
  rw [append_assoc, take_append_of_le_length (by simp; omega), take_take]
  congr 1
  omega

theorem drop_writeAt {pos d : ℕ} (low : d ≤ pos) (h : pos ≤ buf.length)
    (chunk : List α) : (writeAt buf pos chunk).drop d = writeAt (buf.drop d) (pos - d) chunk := by
  have split : buf = buf.take d ++ buf.drop d := (take_append_drop d buf).symm
  have front : (buf.take d).length = d := by simp; omega
  have right := writeAt_append_right (buf.take d) (buf.drop d) (pos - d) chunk
  rw [← split, front, show d + (pos - d) = pos by omega] at right
  rw [right, drop_append_of_le_length (by omega), drop_eq_nil_of_le (by omega), nil_append]

theorem drop_writeAt_before {pos d : ℕ} (h : pos + chunk.length ≤ d)
    (le : d ≤ buf.length) : (writeAt buf pos chunk).drop d = buf.drop d := by
  apply ext_getElem?
  intro j
  rw [getElem?_drop, getElem?_drop, getElem?_writeAt (by omega), if_neg (by omega)]

/-! ## Numbers in network order -/

variable (n : ℕ)

def be16 : List UInt8 := [UInt8.ofNat (n / 256), UInt8.ofNat n]

def be32 : List UInt8 := be16 (n / 65536) ++ be16 n

@[simp] theorem length_be16 : (be16 n).length = 2 := rfl

@[simp] theorem length_be32 : (be32 n).length = 4 := rfl

def byteAt (buf : List UInt8) (pos : ℕ) : ℕ := (buf.getD pos 0).toNat

theorem byteAt_congr {a b : List UInt8} (h : a[pos]? = b[pos]?) : byteAt a pos = byteAt b pos := by
  simp [byteAt, getD_eq_getElem?_getD, h]

def readBe16 (buf : List UInt8) (pos : ℕ) : ℕ := byteAt buf pos * 256 + byteAt buf (pos + 1)

end OpenWifi
