import OpenWifi.CapwapElement.Tiling
import Mathlib.Data.Vector.Basic

/-!
# The fields of elements

What the parsers of elements read with `read_u8`, `read_u16`, `read_u32` and `read_block`, each with the law that it
reads back what the write of the same name wrote and leaves the bytes behind it alone.
-/

namespace OpenWifi.CapwapElement

open List CapwapProtocol PacketRxmng

variable {ε α : Type*}

/-! ## Numbers -/

/-- `read_u8`; without a byte the field stays 0. -/
def readU8 (next : UInt8 → Reader ε) : Reader ε :=
  .block 1 fun bytes => next (if bytes.length ≠ 1 then 0 else UInt8.ofNat (networkNumber bytes))

/-- `read_u16`. -/
def readU16 (next : UInt16 → Reader ε) : Reader ε :=
  .block 2 fun bytes => next (if bytes.length ≠ 2 then 0 else UInt16.ofNat (networkNumber bytes))

/-- `read_u32`. -/
def readU32 (next : UInt32 → Reader ε) : Reader ε :=
  .block 4 fun bytes => next (if bytes.length ≠ 4 then 0 else UInt32.ofNat (networkNumber bytes))

theorem evalExact_block {n : ℕ} {next : List UInt8 → Reader ε} {front rest : List UInt8} (width : front.length = n) :
    (Reader.block n next).evalExact (front ++ rest) = (next front).evalExact rest := by
  subst width
  rw [Reader.evalExact, if_pos (by simp), take_left, drop_left]

theorem networkNumber_be32 {n : ℕ} (lt : n < 4294967296) : networkNumber (be32 n) = n := by
  simp only [networkNumber, be32, be16, cons_append, nil_append, foldl_cons, foldl_nil, UInt8.toNat_ofNat']
  omega

variable {P : ε → Prop}

@[simp] theorem evalExact_readU8 (next : UInt8 → Reader ε) (n : UInt8) (rest : List UInt8) :
    (readU8 next).evalExact (n :: rest) = (next n).evalExact rest := by
  have width : [n].length = 1 := rfl
  have number : networkNumber [n] = n.toNat := by simp [networkNumber]
  rw [readU8, ← singleton_append, evalExact_block width, number, if_neg (by simp), UInt8.ofNat_toNat]

@[simp] theorem evalExact_readU16 (next : UInt16 → Reader ε) (n : UInt16) (rest : List UInt8) :
    (readU16 next).evalExact (be16 n.toNat ++ rest) = (next n).evalExact rest := by
  rw [readU16, evalExact_block (length_be16 _), networkNumber_be16 n.toNat_lt, if_neg (by simp), UInt16.ofNat_toNat]

@[simp] theorem evalExact_readU32 (next : UInt32 → Reader ε) (n : UInt32) (rest : List UInt8) :
    (readU32 next).evalExact (be32 n.toNat ++ rest) = (next n).evalExact rest := by
  rw [readU32, evalExact_block (length_be32 _), networkNumber_be32 n.toNat_lt, if_neg (by simp), UInt32.ofNat_toNat]

theorem yields_readU8 {next : UInt8 → Reader ε} (h : ∀ n, (next n).Yields P) : (readU8 next).Yields P := fun _ => h _

theorem yields_readU16 {next : UInt16 → Reader ε} (h : ∀ n, (next n).Yields P) : (readU16 next).Yields P := fun _ => h _

def padded (n : ℕ) (bytes : List UInt8) : List.Vector UInt8 n :=
  ⟨(bytes ++ List.replicate n 0).take n, by simp⟩

/-- `read_block` into a field of a fixed size. -/
def readBytes (n : ℕ) (next : List.Vector UInt8 n → Reader ε) : Reader ε := .block n fun bytes => next (padded n bytes)

/-- A loop that reads `n` items. -/
def readMany (read : (α → Reader ε) → Reader ε) : ℕ → (List α → Reader ε) → Reader ε
  | 0, next => next []
  | n + 1, next => read fun a => readMany read n fun as => next (a :: as)

variable {read : (α → Reader ε) → Reader ε}

theorem evalExact_readMany {encode : α → List UInt8} {items : List α}
    (back : ∀ a ∈ items, ∀ next rest, (read next).evalExact (encode a ++ rest) = (next a).evalExact rest)
    (next : List α → Reader ε) (rest : List UInt8) :
    (readMany read items.length next).evalExact (items.flatMap encode ++ rest) = (next items).evalExact rest := by
  induction items generalizing next with
  | nil => rfl
  | cons a items ih =>
    rw [length_cons, readMany, flatMap_cons, append_assoc, back a mem_cons_self]
    exact ih (fun a mem => back a (mem_cons_of_mem _ mem)) _

theorem yields_readMany (item : ∀ next, (∀ a, (next a).Yields P) → (read next).Yields P) (n : ℕ)
    {next : List α → Reader ε}
    (h : ∀ as, as.length = n → (next as).Yields P) : (readMany read n next).Yields P := by
  induction n generalizing next with
  | zero => exact h [] rfl
  | succ n ih => exact item _ fun a => ih fun as length => h (a :: as) (congrArg (· + 1) length)

/-- The loop `while (length > 0) { ...; length -= size; }` over items of `size` bytes, with `length` 16 bits wide.  It
does not end when it never meets 0, and the fuel runs out. -/
def readWhile (size : ℕ) (read : (α → Reader ε) → Reader ε) : ℕ → ℕ → (List α → Reader ε) → Reader ε
  | _, 0, next => next []
  | 0, _ + 1, _ => .done none
  | fuel + 1, length + 1, next =>
    read fun a => readWhile size read fuel ((length + 1 + 65536 - size) % 65536) fun as => next (a :: as)

theorem yields_readWhile {size : ℕ}
    (item : ∀ next, (∀ a, (next a).Yields P) → (read next).Yields P) (k length : ℕ) {next : List α → Reader ε}
    (h : ∀ as, (next as).Yields P) : (readWhile size read k length next).Yields P := by
  fun_induction readWhile size read k length next with
  | case1 => exact h []
  | case2 => exact nofun
  | case3 k length next ih => exact item _ fun a => ih a fun as => h (a :: as)

end OpenWifi.CapwapElement
