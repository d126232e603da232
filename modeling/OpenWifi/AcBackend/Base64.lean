import OpenWifi.Lib.Memory
import Mathlib.Data.Int.Bitwise
import Mathlib.Tactic.IntervalCases

/-!
# Base64 of the backend client

The encoder shifts a `char` before it looks at its table, and its last group looks at the bytes behind the end.
-/

namespace OpenWifi.AcBackend.Base64

open List Memory

/-- A `char` as a number. -/
def charValue (signed : Bool) (c : UInt8) : ℤ :=
  if signed ∧ 128 ≤ c.toNat then (c.toNat : ℤ) - 256 else c.toNat

/-- `l_encodeblock`. -/
def encodeBlock : List UInt8 :=
  "ABCDEFGHIJKLMNOPQRSTUVWXYZabcdefghijklmnopqrstuvwxyz0123456789+/".toList.map fun c => UInt8.ofNat c.toNat

/-- `l_decodeblock`. -/
def decodeBlock : List UInt8 :=
  [0x3f, 0x00, 0x00, 0x00, 0x40, 0x35, 0x36, 0x37, 0x38, 0x39, 0x3a, 0x3b, 0x3c, 0x3d, 0x3e, 0x00,
   0x00, 0x00, 0x00, 0x00, 0x00, 0x00, 0x01, 0x02, 0x03, 0x04, 0x05, 0x06, 0x07, 0x08, 0x09, 0x0a,
   0x0b, 0x0c, 0x0d, 0x0e, 0x0f, 0x10, 0x11, 0x12, 0x13, 0x14, 0x15, 0x16, 0x17, 0x18, 0x19, 0x1a,
   0x00, 0x00, 0x00, 0x00, 0x00, 0x00, 0x1b, 0x1c, 0x1d, 0x1e, 0x1f, 0x20, 0x21, 0x22, 0x23, 0x24,
   0x25, 0x26, 0x27, 0x28, 0x29, 0x2a, 0x2b, 0x2c, 0x2d, 0x2e, 0x2f, 0x30, 0x31, 0x32, 0x33, 0x34]

/-- The text, the indexes that the encoder looked up and the positions that it read. -/
structure Encoding where
  encoded : List UInt8
  indexes : List ℤ
  reads : List ℕ

/-- `l_encodeblock[index]`; `around` is what lies before and behind the table. -/
def encodeChar (around : ℤ → UInt8) (index : ℤ) : UInt8 :=
  if 0 ≤ index ∧ index < 64 then encodeBlock.getD index.toNat 0 else around index

variable (p0 p1 p2 : UInt8)

/-- The second, third and fourth index of a group: their masks look at the low eight bits only. -/
def lowIndexes (len : ℕ) : List UInt8 :=
  [(p0 &&& 0x03) <<< 4 ||| (p1 &&& 0xf0) >>> 4] ++
    (if 1 < len then [(p1 &&& 0x0f) <<< 2 ||| (p2 &&& 0xc0) >>> 6] else []) ++ (if 2 < len then [p2 &&& 0x3f] else [])

/-- The group of the `len` bytes at `pos`. -/
def encodeGroup (signed : Bool) (around : ℤ → UInt8) (plain : ℕ → UInt8) (pos len : ℕ) : Encoding :=
  let indexes := (charValue signed (plain pos) >>> 2) ::
    (lowIndexes (plain pos) (plain (pos + 1)) (plain (pos + 2)) len).map fun i => (i.toNat : ℤ)
  { encoded := indexes.map (encodeChar around) ++ List.replicate (3 - len) 61
    indexes
    reads := [pos, pos, pos + 1] ++ (if 1 < len then [pos + 1, pos + 2] else []) ++ (if 2 < len then [pos + 2] else [])
      }

/-- `ac_base64_binary_encode`, from `pos` on. -/
def binaryEncode (signed : Bool) (around : ℤ → UInt8) (plain : ℕ → UInt8) : ℕ → ℕ → Encoding
  | _, 0 => ⟨[], [], []⟩
  | pos, 1 => encodeGroup signed around plain pos 1
  | pos, 2 => encodeGroup signed around plain pos 2
  | pos, length + 3 =>
    let group := encodeGroup signed around plain pos 3
    let rest := binaryEncode signed around plain (pos + 3) length
    ⟨group.encoded ++ rest.encoded, group.indexes ++ rest.indexes, group.reads ++ rest.reads⟩

/-- The entry of `l_decodeblock` for a character, `0` outside of the alphabet. -/
def element (signed : Bool) (c : UInt8) : UInt8 :=
  if charValue signed c < 43 ∨ 122 < charValue signed c then 0 else decodeBlock.getD (c.toNat - 43) 0

/-- `bufenc`: up to `n` elements, and the characters behind them. -/
def fillGroup (signed : Bool) : ℕ → List UInt8 → List UInt8 × List UInt8
  | 0, text => ([], text)
  | _ + 1, [] => ([], [])
  | n + 1, c :: text =>
    if element signed c = 0 then fillGroup signed (n + 1) text
    else
      let (group, rest) := fillGroup signed n text
      ((element signed c - 1) :: group, rest)

/-- `bufdec`, as much of it as is written. -/
def groupBytes (bufenc : List UInt8) : List UInt8 :=
  let at' i := bufenc.getD i 0
  [at' 0 <<< 2 ||| at' 1 >>> 4, at' 1 <<< 4 ||| at' 2 >>> 2, (at' 2 <<< 6 &&& 0xc0) ||| at' 3].take (bufenc.length - 1)

theorem length_fillGroup_le (signed : Bool) (n : ℕ) (text : List UInt8) :
    (fillGroup signed n text).2.length ≤ text.length := by
  fun_induction fillGroup signed n text <;> simp_all <;> omega

theorem length_fillGroup_lt (signed : Bool) (n : ℕ) (c : UInt8) (text : List UInt8) :
    (fillGroup signed (n + 1) (c :: text)).2.length < (c :: text).length := by
  have skipped := length_fillGroup_le signed (n + 1) text
  have taken := length_fillGroup_le signed n text
  rw [fillGroup]
  split <;> simp <;> omega

/-- `ac_base64_binary_decode`. -/
def binaryDecode (signed : Bool) : List UInt8 → List UInt8
  | [] => []
  | c :: text => groupBytes (fillGroup signed 4 (c :: text)).1 ++ binaryDecode signed (fillGroup signed 4 (c :: text)).2
termination_by text => text.length
decreasing_by exact length_fillGroup_lt signed 3 c text

/-- The values of the characters of the alphabet in a text. -/
def sextets (signed : Bool) (text : List UInt8) : List UInt8 :=
  text.filterMap fun c => if element signed c = 0 then none else some (element signed c - 1)

/-- The bytes of a list of values. -/
def decodeSextets : List UInt8 → List UInt8
  | a :: b :: c :: d :: rest => groupBytes [a, b, c, d] ++ decodeSextets rest
  | last => groupBytes last

theorem decodeSextets_eq (values : List UInt8) :
    decodeSextets values = groupBytes (values.take 4) ++ decodeSextets (values.drop 4) := by
  match values with
  | [] | [_] | [_, _] | [_, _, _] => simp [decodeSextets, groupBytes]
  | _ :: _ :: _ :: _ :: _ => simp [decodeSextets]

theorem fillGroup_spec (signed : Bool) (n : ℕ) (text : List UInt8) :
    (fillGroup signed n text).1 = (sextets signed text).take n ∧
      sextets signed (fillGroup signed n text).2 = (sextets signed text).drop n := by
  fun_induction fillGroup signed n text <;> simp_all [sextets]

theorem binaryDecode_eq (signed : Bool) (text : List UInt8) :
    binaryDecode signed text = decodeSextets (sextets signed text) := by
  fun_induction binaryDecode signed text with
  | case1 => rfl
  | case2 c text ih =>
    obtain ⟨group, rest⟩ := fillGroup_spec signed 4 (c :: text)
    rw [ih, group, rest, ← decodeSextets_eq]

/-- Characters outside of the alphabet put into a text. -/
inductive Inserted : List UInt8 → List UInt8 → Prop
  | nil : Inserted [] []
  | keep (c : UInt8) {encoded text : List UInt8} : Inserted encoded text → Inserted (c :: encoded) (c :: text)
  | insert {c : UInt8} (outside : c ∉ encodeBlock) {encoded text : List UInt8} :
    Inserted encoded text → Inserted encoded (c :: text)

theorem forall_byte {P : UInt8 → Prop} (all : ∀ n < 256, P (UInt8.ofNat n)) (b : UInt8) : P b := by
  simpa using all b.toNat b.toNat_lt

theorem element_outside (signed : Bool) : ∀ c : UInt8, c ∉ encodeBlock → element signed c = 0 := by
  cases signed <;> exact forall_byte (by decide +kernel)

theorem Inserted.sextets_eq {signed : Bool} {encoded text : List UInt8} (inserted : Inserted encoded text) :
    sextets signed text = sextets signed encoded := by
  induction inserted with
  | nil => rfl
  | keep c _ ih => simp only [sextets, filterMap_cons] at ih ⊢; rw [ih]
  | insert outside _ ih => simpa [sextets, element_outside signed _ outside] using ih

section RoundTrip

variable {signed : Bool} {around : ℤ → UInt8} {plain : ℕ → UInt8} {pos len length : ℕ}

theorem element_encodeBlock (signed : Bool) : ∀ i : UInt8, i.toNat < 64 →
    element signed (encodeBlock.getD i.toNat 0) ≠ 0 ∧ element signed (encodeBlock.getD i.toNat 0) - 1 = i := by
  cases signed <;> exact forall_byte (by decide +kernel)

theorem sextets_map_encodeChar (signed : Bool) (around : ℤ → UInt8) {values : List UInt8}
    (small : ∀ i ∈ values, i.toNat < 64) :
    sextets signed ((values.map fun i => (i.toNat : ℤ)).map (encodeChar around)) = values := by
  induction values with
  | nil => rfl
  | cons i values ih =>
    have inside : i.toNat < 64 := small i (by simp)
    obtain ⟨found, value⟩ := element_encodeBlock signed i inside
    have read : encodeChar around i.toNat = encodeBlock.getD i.toNat 0 := by
      rw [encodeChar, if_pos (by omega), Int.toNat_natCast]
    have rest := ih fun j mem => small j (by simp [mem])
    simp only [sextets, map_cons, filterMap_cons, read, if_neg found, value] at rest ⊢
    rw [rest]

theorem lowIndexes_lt {p0 p1 p2 i : UInt8} (mem : i ∈ lowIndexes p0 p1 p2 len) : i.toNat < 64 := by
  have first : ∀ p : UInt8, ((p &&& 0x03) <<< 4).toNat < 2 ^ 6 ∧ ((p &&& 0xf0) >>> 4).toNat < 2 ^ 6 :=
    forall_byte (by decide +kernel)
  have second : ∀ p : UInt8, ((p &&& 0x0f) <<< 2).toNat < 2 ^ 6 ∧ ((p &&& 0xc0) >>> 6).toNat < 2 ^ 6 :=
    forall_byte (by decide +kernel)
  have third : ∀ p : UInt8, (p &&& 0x3f).toNat < 2 ^ 6 := forall_byte (by decide +kernel)
  simp only [lowIndexes, mem_append, mem_ite_nil_right, mem_singleton] at mem
  obtain (rfl | ⟨-, rfl⟩) | ⟨-, rfl⟩ := mem
  · rw [UInt8.toNat_or]
    exact Nat.or_lt_two_pow (first p0).1 (first p1).2
  · rw [UInt8.toNat_or]
    exact Nat.or_lt_two_pow (second p1).1 (second p2).2
  · exact third p2

theorem shift_inside_iff (signed : Bool) : ∀ p : UInt8,
    ((0 : ℤ) ≤ charValue signed p >>> 2 ∧ charValue signed p >>> 2 < 64) ↔ 0 ≤ charValue signed p := by
  cases signed <;> exact forall_byte (by decide +kernel)

theorem shift_eq (signed : Bool) : ∀ p : UInt8, 0 ≤ charValue signed p →
    charValue signed p >>> 2 = ((p >>> 2).toNat : ℤ) ∧ (p >>> 2).toNat < 64 := by
  cases signed <;> exact forall_byte (by decide +kernel)

theorem sextets_group (positive : 0 ≤ charValue signed (plain pos)) :
    sextets signed (encodeGroup signed around plain pos len).encoded =
      (plain pos >>> 2) :: lowIndexes (plain pos) (plain (pos + 1)) (plain (pos + 2)) len := by
  obtain ⟨shifted, small⟩ := shift_eq signed _ positive
  have padding (n : ℕ) : sextets signed (List.replicate n 61) = [] := by
    have skipped := element_outside signed 61 (by decide +kernel)
    simp [sextets, skipped]
  have bound : ∀ i ∈ (plain pos >>> 2) :: lowIndexes (plain pos) (plain (pos + 1)) (plain (pos + 2)) len,
      i.toNat < 64 := by
    intro i mem
    obtain rfl | low := mem_cons.1 mem
    · exact small
    · exact lowIndexes_lt low
  have values := sextets_map_encodeChar signed around bound
  rw [map_cons, ← shifted] at values
  rw [encodeGroup, sextets, filterMap_append]
  exact (congrArg₂ _ values (padding _)).trans (append_nil _)

theorem groupBytes_three : groupBytes ((p0 >>> 2) :: lowIndexes p0 p1 p2 3) = [p0, p1, p2] := by
  refine cons_eq_cons.2 ⟨?_, cons_eq_cons.2 ⟨?_, cons_eq_cons.2 ⟨?_, rfl⟩⟩⟩ <;>
    apply UInt8.eq_of_toBitVec_eq <;> ext i bound <;> interval_cases i <;> simp [lowIndexes]

theorem groupBytes_two : groupBytes ((p0 >>> 2) :: lowIndexes p0 p1 p2 2) = [p0, p1] :=
  (congrArg (List.take 2) (groupBytes_three p0 p1 p2) :)

theorem groupBytes_one : groupBytes ((p0 >>> 2) :: lowIndexes p0 p1 p2 1) = [p0] :=
  (congrArg (List.take 1) (groupBytes_three p0 p1 p2) :)

/-- No group starts with a negative character. -/
def Positive (signed : Bool) (plain : ℕ → UInt8) (pos length : ℕ) : Prop :=
  ∀ k < length, k % 3 = 0 → 0 ≤ charValue signed (plain (pos + k))

theorem positive_short (one : 0 < len) (short : len < 3) :
    Positive signed plain pos len ↔ 0 ≤ charValue signed (plain pos) := by
  refine ⟨fun positive => positive 0 one rfl, fun first k bound start => ?_⟩
  obtain rfl : k = 0 := by omega
  exact first

theorem positive_add_three : Positive signed plain pos (length + 3) ↔
      0 ≤ charValue signed (plain pos) ∧ Positive signed plain (pos + 3) length := by
  constructor
  · intro positive
    refine ⟨positive 0 (by omega) rfl, fun k bound start => ?_⟩
    rw [Nat.add_assoc]
    exact positive (3 + k) (by omega) (by omega)
  · rintro ⟨first, positive⟩ k bound start
    obtain rfl | later : k = 0 ∨ 3 ≤ k := by omega
    · exact first
    · have shifted := positive (k - 3) (by omega) (by omega)
      rwa [show pos + 3 + (k - 3) = pos + k by omega] at shifted

theorem decodeSextets_binaryEncode (positive : Positive signed plain pos length) :
    decodeSextets (sextets signed (binaryEncode signed around plain pos length).encoded) = slice plain pos length := by
  fun_induction binaryEncode signed around plain pos length with
  | case1 => rfl
  | case2 pos =>
    rw [sextets_group ((positive_short (by decide) (by decide)).1 positive)]
    exact groupBytes_one ..
  | case3 pos =>
    rw [sextets_group ((positive_short (by decide) (by decide)).1 positive)]
    exact groupBytes_two ..
  | case4 pos length group rest ih =>
    obtain ⟨first, later⟩ := positive_add_three.1 positive
    rw [sextets, filterMap_append]
    change decodeSextets (sextets signed group.encoded ++ sextets signed rest.encoded) = _
    rw [sextets_group first, decodeSextets_eq]
    exact congrArg₂ _ (groupBytes_three ..) (ih later)

theorem group_inside_iff :
    (∀ i ∈ (encodeGroup signed around plain pos len).indexes, 0 ≤ i ∧ i < 64) ↔ 0 ≤ charValue signed (plain pos) := by
  simp only [encodeGroup, forall_mem_cons, shift_inside_iff, forall_mem_map]
  refine and_iff_left fun i mem => ?_
  have := lowIndexes_lt mem
  omega

theorem indexes_inside_iff : (∀ i ∈ (binaryEncode signed around plain pos length).indexes, 0 ≤ i ∧ i < 64) ↔
      Positive signed plain pos length := by
  fun_induction binaryEncode signed around plain pos length with
  | case1 => simp [Positive]
  | case2 pos | case3 pos => rw [group_inside_iff, positive_short (by decide) (by decide)]
  | case4 pos length group rest ih => rw [forall_mem_append, group_inside_iff, ih, positive_add_three]

theorem reads_inside_iff (signed : Bool) (around : ℤ → UInt8) (plain : ℕ → UInt8) (pos length : ℕ) :
    (∀ p ∈ (binaryEncode signed around plain pos length).reads, p < pos + length) ↔ length % 3 = 0 := by
  fun_induction binaryEncode signed around plain pos length with
  | case1 => simp
  | case2 pos | case3 pos => simp [encodeGroup]
  | case4 pos length group rest ih =>
    change _ ↔ (length + 3) % 3 = 0
    rw [forall_mem_append, Nat.add_mod_right, ← ih, show pos + length.succ.succ.succ = pos + 3 + length by omega]
    refine and_iff_right ?_
    simp [group, encodeGroup]
    omega

/-- The bytes come back from every text with the encoded characters in it, and the encoder stays in its table and its
bytes. -/
def Correct (signed : Bool) (around : ℤ → UInt8) (plain : ℕ → UInt8) (length : ℕ) : Prop :=
  (∀ text, Inserted (binaryEncode signed around plain 0 length).encoded text →
      binaryDecode signed text = slice plain 0 length) ∧
    (∀ i ∈ (binaryEncode signed around plain 0 length).indexes, 0 ≤ i ∧ i < 64) ∧
    ∀ p ∈ (binaryEncode signed around plain 0 length).reads, p < length

/-- The encoder is right on whole groups whose first bytes are not negative characters. -/
theorem correct_iff (signed : Bool) (around : ℤ → UInt8) (plain : ℕ → UInt8) (length : ℕ) :
    Correct signed around plain length ↔
      length % 3 = 0 ∧ ∀ k < length, k % 3 = 0 → signed = true → (plain k).toNat < 128 := by
  have positive : Positive signed plain 0 length ↔ ∀ k < length, k % 3 = 0 → signed = true → (plain k).toNat < 128 := by
    have value (c : UInt8) : 0 ≤ charValue signed c ↔ (signed = true → c.toNat < 128) := by
      have := c.toNat_lt
      unfold charValue
      split <;> grind
    simp [Positive, value]
  have reads := reads_inside_iff signed around plain 0 length
  rw [Nat.zero_add] at reads
  rw [Correct, indexes_inside_iff, reads, ← positive]
  constructor
  · rintro ⟨-, inside, whole⟩
    exact ⟨whole, inside⟩
  · rintro ⟨whole, inside⟩
    refine ⟨fun text inserted => ?_, inside, whole⟩
    rw [binaryDecode_eq, inserted.sextets_eq, decodeSextets_binaryEncode inside]

/-- One byte: the encoder reads the byte behind it. -/
theorem binaryEncode_reads_behind : 1 ∈ (binaryEncode true (fun _ => 0) (fun _ => 65) 0 1).reads ∧
      (-16) ∈ (binaryEncode true (fun _ => 0) (fun _ => 0xc3) 0 3).indexes := by
  decide

end RoundTrip

end OpenWifi.AcBackend.Base64
