import OpenWifi.CapwapProtocol.Layout

/-!
# The write loop

The write loop never leaves the fragment in which it copies its first byte, and every turn copies a prefix of the same
data to the same position.
-/

namespace OpenWifi.CapwapProtocol

open List FragmentPacketItem

namespace PacketTxmng

/-! ## One copy -/

@[simp] theorem count_fragmentlist (tx : PacketTxmng) (n : ℕ) : (tx.count n).fragmentlist = tx.fragmentlist := rfl

@[simp] theorem count_zero (tx : PacketTxmng) : tx.count 0 = tx := by
  simp [count]

theorem count_count (tx : PacketTxmng) (m n : ℕ) : (tx.count m).count n = tx.count (m + n) := by
  simp [count, UInt16.ofNat_add, UInt16.add_assoc]

section

variable {tx : PacketTxmng} {writepos : WriteBlockFromPos} {f : FragmentPacketItem}
    (item : tx.fragmentlist[writepos.item]? = some f)
include item

theorem space_eq : tx.space writepos = f.size - writepos.pos := by
  simp [space, item]

theorem copy_within {chunk : List UInt8} (within : writepos.pos + chunk.length ≤ f.offset) :
    tx.copy writepos chunk = tx.put writepos f chunk := by
  unfold copy
  simp only [item]
  rw [if_neg (by omega)]

theorem copy_beyond {chunk : List UInt8} (beyond : f.offset < writepos.pos + chunk.length) :
    tx.copy writepos chunk = (tx.put writepos f chunk).addLength (writepos.pos + chunk.length - f.offset) := by
  unfold copy
  simp only [item]
  rw [if_pos (by omega), Nat.add_comm chunk.length]

theorem put_getElem? (chunk : List UInt8) : (tx.put writepos f chunk).fragmentlist[writepos.item]? =
      some { f with buffer := writeAt f.buffer writepos.pos chunk } := by
  have lt : writepos.item < tx.fragmentlist.length := (List.getElem?_eq_some_iff.1 item).1
  simp [put, lt]

end

theorem addLength_other {i : ℕ} (h : i ≠ 0) (tx : PacketTxmng) (growth : ℕ) :
    (tx.addLength growth).fragmentlist[i]? = tx.fragmentlist[i]? := by
  obtain ⟨n, rfl⟩ := Nat.exists_eq_succ_of_ne_zero h
  cases e : tx.fragmentlist <;> simp [addLength, e]

variable {tx : PacketTxmng} {f : FragmentPacketItem}

theorem addLength_first (first : tx.fragmentlist[0]? = some f) (growth : ℕ) :
    (tx.addLength growth).fragmentlist[0]? = some { f with
        buffer := writeAt f.buffer (tx.ctrlmsg + 5)
          (be16 (readBe16 f.buffer (tx.ctrlmsg + 5) + growth)) } := by
  cases e : tx.fragmentlist <;> simp_all [addLength]

/-- The bytes from the position on are already those of `data`, up to `bound`. -/
structure Settled (tx : PacketTxmng) (writepos : WriteBlockFromPos) (data : List UInt8)
    (bound : ℕ) (f : FragmentPacketItem) : Prop where
  item : tx.fragmentlist[writepos.item]? = some f
  inside : writepos.pos + min bound data.length ≤ f.buffer.length
  bytes : ∀ j < bound, j < data.length → f.buffer[writepos.pos + j]? = data[j]?

variable {writepos : WriteBlockFromPos}

theorem settled_copy (item : tx.fragmentlist[writepos.item]? = some f) (start : writepos.pos ≤ f.buffer.length)
    (apart : writepos.item = 0 → tx.ctrlmsg + 7 ≤ writepos.pos) (data : List UInt8) (bound : ℕ) :
    ∃ f', (tx.copy writepos (data.take bound)).Settled writepos data bound f' ∧ f'.size = f.size := by
  have long := length_writeAt start (data.take bound)
  have bytes : ∀ j < bound, j < data.length →
      (writeAt f.buffer writepos.pos (data.take bound))[writepos.pos + j]? = data[j]? := by
    intro j low high
    rw [getElem?_writeAt start, if_pos (by simp; omega), Nat.add_sub_cancel_left, getElem?_take_of_lt low]
  have there := put_getElem? item (data.take bound)
  rw [length_take] at long
  by_cases beyond : f.offset < writepos.pos + (data.take bound).length
  · rw [copy_beyond item beyond]
    by_cases first : writepos.item = 0
    · have before := apart first
      rw [first] at there
      have there := addLength_first there (writepos.pos + (data.take bound).length - f.offset)
      rw [← first] at there
      have reach : tx.ctrlmsg + 5 ≤ (writeAt f.buffer writepos.pos (data.take bound)).length := by
        omega
      refine ⟨_, ⟨there, ?_, fun j low high => ?_⟩, rfl⟩
      · simp only [length_writeAt reach, put, count]
        omega
      · simp only [put, count]
        rw [getElem?_writeAt reach, if_neg (by simp; omega)]
        exact bytes j low high
    · rw [← addLength_other first _ (writepos.pos + (data.take bound).length - f.offset)] at there
      exact ⟨_, ⟨there, by simp only; omega, bytes⟩, rfl⟩
  · rw [copy_within item (by omega)]
    exact ⟨_, ⟨there, by simp only; omega, bytes⟩, rfl⟩

theorem Settled.copy_eq {data : List UInt8} {bound : ℕ} (h : tx.Settled writepos data bound f) {n : ℕ}
    (le : n ≤ bound) : tx.copy writepos (data.take n) = tx.count (min n data.length) := by
  have inside := h.inside
  have same : writeAt f.buffer writepos.pos (data.take n) = f.buffer := by
    apply ext_getElem?
    intro j
    have : writepos.pos ≤ f.buffer.length := le_trans (by omega) h.inside
    rw [getElem?_writeAt this]
    split
    case isFalse => rfl
    case isTrue within =>
      simp only [length_take] at within
      rw [getElem?_take_of_lt (by omega), ← h.bytes (j - writepos.pos) (by omega) (by omega)]
      congr 1
      omega
  have there : tx.fragmentlist.set writepos.item f = tx.fragmentlist := by
    obtain ⟨lt, e⟩ := List.getElem?_eq_some_iff.1 h.item
    rw [← e, set_getElem_self]
  rw [copy_within h.item (by simp only [length_take, offset]; omega), put, same, there, length_take]

theorem writeLoop_zero (data : List UInt8) (turns : ℕ) (tx : PacketTxmng)
    (writepos : WriteBlockFromPos) : writeLoop data turns 0 tx writepos = some (0, tx) := by
  cases turns <;> rfl

theorem writeLoop_turn (data : List UInt8) (turns length : ℕ) (space : tx.space writepos ≠ 0) :
    writeLoop data (turns + 1) (length + 1) tx writepos =
      writeLoop data turns (length + 1 - min (length + 1) (tx.space writepos))
        (tx.copy writepos (data.take (min (length + 1) (tx.space writepos)))) writepos := by
  have some_space : min (length + 1) (tx.space writepos) ≠ 0 := by omega
  simp [writeLoop, some_space]

theorem writeLoop_advance (data : List UInt8) (turns length : ℕ) (full : tx.space writepos = 0)
    (space : (tx.advance writepos).1.space (tx.advance writepos).2 ≠ 0) :
    writeLoop data (turns + 1) (length + 1) tx writepos =
      writeLoop data (turns + 1) (length + 1) (tx.advance writepos).1 (tx.advance writepos).2 := by
  rw [writeLoop_turn _ _ _ space]
  have some_space :
      min (length + 1) ((tx.advance writepos).1.space (tx.advance writepos).2) ≠ 0 := by omega
  simp [writeLoop, full, some_space]

theorem Settled.writeLoop_eq {data : List UInt8} {bound : ℕ} (room : writepos.pos < f.size) (turns : ℕ) {length : ℕ}
    (enough : length ≤ turns) (short : length ≤ data.length)
    (h : tx.Settled writepos data bound f) (le : min length (f.size - writepos.pos) ≤ bound) :
    writeLoop data turns length tx writepos = some (0, tx.count length) := by
  induction turns generalizing length tx with
  | zero =>
    obtain rfl : length = 0 := by omega
    rw [writeLoop_zero, count_zero]
  | succ turns ih =>
    cases length with
    | zero => rw [writeLoop_zero, count_zero]
    | succ length =>
      have space := space_eq h.item
      rw [writeLoop_turn _ _ _ (by omega), space, h.copy_eq le]
      have rest := @ih (tx.count (min (min (length + 1) (f.size - writepos.pos)) data.length))
        (length + 1 - min (length + 1) (f.size - writepos.pos)) (by omega) (by omega)
        ⟨h.item, h.inside, h.bytes⟩ (by omega)
      rw [rest, count_count]
      congr 3
      omega

section

variable {tx : PacketTxmng} {writepos : WriteBlockFromPos} {f : FragmentPacketItem}
    (item : tx.fragmentlist[writepos.item]? = some f) (start : writepos.pos ≤ f.buffer.length)
include item start

theorem copy_nil : tx.copy writepos [] = tx := by
  have settled : tx.Settled writepos [] 0 f := ⟨item, by simpa using start, by simp⟩
  simpa using settled.copy_eq le_rfl

theorem writeLoop_eq (apart : writepos.item = 0 → tx.ctrlmsg + 7 ≤ writepos.pos)
    (room : writepos.pos < f.size) (data : List UInt8) : writeLoop data data.length data.length tx writepos =
      some (0, (tx.copy writepos (data.take (f.size - writepos.pos))).count
        (data.length - (f.size - writepos.pos))) := by
  have space := space_eq item
  cases h : data.length with
  | zero =>
    obtain rfl : data = [] := length_eq_zero_iff.1 h
    rw [writeLoop_zero]
    simp [copy_nil item start]
  | succ length =>
    obtain ⟨f', settled, size⟩ := settled_copy item start apart data (min (length + 1) (f.size - writepos.pos))
    rw [writeLoop_turn _ _ _ (by omega), space, settled.writeLoop_eq (by omega) length (by omega) (by omega) (by omega)]
    have taken : data.take (min (length + 1) (f.size - writepos.pos)) = data.take (f.size - writepos.pos) := by
      rw [← h, take_eq_take_iff]
      omega
    rw [taken]
    congr 3
    omega

end

end PacketTxmng

/-! ## The byte stream of a fragment list -/

def stream (frags : List FragmentPacketItem) : List UInt8 := frags.flatMap payload

structure Outline where
  size : ℕ
  offset : ℕ
  hlen : ℕ

def FragmentPacketItem.outline (f : FragmentPacketItem) : Outline :=
  ⟨f.size, f.buffer.length, getHlen f.buffer⟩

def Outline.body (o : Outline) : ℕ := o.offset - o.hlen * 4

theorem length_payload (f : FragmentPacketItem) : f.payload.length = f.outline.body := by
  simp [payload, outline, Outline.body]

def bodies (os : List Outline) : ℕ := (os.map Outline.body).sum

theorem length_stream (frags : List FragmentPacketItem) : (stream frags).length = bodies (frags.map outline) := by
  simp [stream, bodies, length_flatMap, length_payload, Function.comp_def]

theorem stream_append (a b : List FragmentPacketItem) : stream (a ++ b) = stream a ++ stream b := by
  simp [stream]

theorem stream_set {frags : List FragmentPacketItem} {i : ℕ} (lt : i < frags.length) (f : FragmentPacketItem) :
    stream (frags.set i f) = stream (frags.take i) ++ (f.payload ++ stream (frags.drop (i + 1))) := by
  rw [set_eq_take_append_cons_drop, if_pos lt, stream_append]
  rfl

theorem stream_split {frags : List FragmentPacketItem} {i : ℕ} {f : FragmentPacketItem} (item : frags[i]? = some f) :
    stream frags = stream (frags.take i) ++ (f.payload ++ stream (frags.drop (i + 1))) := by
  obtain ⟨lt, e⟩ := List.getElem?_eq_some_iff.1 item
  rw [← stream_set lt, ← e, set_getElem_self]

theorem payload_writeAt {f : FragmentPacketItem} {pos : ℕ} (two : 2 ≤ pos)
    (low : getHlen f.buffer * 4 ≤ pos) (high : pos ≤ f.buffer.length) (chunk : List UInt8) :
    payload { f with buffer := writeAt f.buffer pos chunk } =
      writeAt f.payload (pos - getHlen f.buffer * 4) chunk := by
  simp only [payload, getHlen_writeAt two high]
  exact drop_writeAt low high chunk

theorem payload_writeAt_header {f : FragmentPacketItem} {pos : ℕ} {chunk : List UInt8}
    (two : 2 ≤ pos) (low : pos + chunk.length ≤ getHlen f.buffer * 4) (high : getHlen f.buffer * 4 ≤ f.buffer.length) :
    payload { f with buffer := writeAt f.buffer pos chunk } = f.payload := by
  have start : pos ≤ f.buffer.length := by omega
  simp only [payload, getHlen_writeAt two start]
  exact drop_writeAt_before low high

theorem outline_writeAt {f : FragmentPacketItem} {pos : ℕ} {chunk : List UInt8} (two : 2 ≤ pos)
    (within : pos + chunk.length ≤ f.buffer.length) :
    outline { f with buffer := writeAt f.buffer pos chunk } = f.outline := by
  have start : pos ≤ f.buffer.length := by omega
  simp [outline, getHlen_writeAt two start, length_writeAt_within within]

theorem map_outline_set {frags : List FragmentPacketItem} {i : ℕ} {f f' : FragmentPacketItem}
    (item : frags[i]? = some f) (same : f'.outline = f.outline) : (frags.set i f').map outline = frags.map outline := by
  obtain ⟨lt, e⟩ := List.getElem?_eq_some_iff.1 item
  apply ext_getElem?
  intro j
  rw [getElem?_map, getElem?_map, getElem?_set]
  split
  case isTrue here => rw [← here, item, Option.map_some, Option.map_some, same]
  case isFalse => rfl

namespace PacketTxmng

theorem stream_put {tx : PacketTxmng} {writepos : WriteBlockFromPos} {f : FragmentPacketItem}
    (item : tx.fragmentlist[writepos.item]? = some f) {chunk : List UInt8} (two : 2 ≤ writepos.pos)
    (low : getHlen f.buffer * 4 ≤ writepos.pos) (within : writepos.pos + chunk.length ≤ f.buffer.length) :
    stream (tx.put writepos f chunk).fragmentlist = writeAt (stream tx.fragmentlist)
        ((stream (tx.fragmentlist.take writepos.item)).length + (writepos.pos - getHlen f.buffer * 4)) chunk := by
  obtain ⟨lt, -⟩ := List.getElem?_eq_some_iff.1 item
  have fits : writepos.pos - getHlen f.buffer * 4 + chunk.length ≤ f.payload.length := by
    simp only [payload, length_drop]
    omega
  simp only [put, count]
  rw [stream_set lt, payload_writeAt two low (by omega), stream_split item, writeAt_append_right,
    writeAt_append_left fits]

theorem stream_put_end {tx : PacketTxmng} {init : List FragmentPacketItem} {last : FragmentPacketItem}
    (frags : tx.fragmentlist = init ++ [last]) (two : 2 ≤ last.buffer.length)
    (low : getHlen last.buffer * 4 ≤ last.buffer.length) (chunk : List UInt8) :
    (tx.put ⟨init.length, last.buffer.length⟩ last chunk).fragmentlist =
        init ++ [{ last with buffer := last.buffer ++ chunk }] ∧
      stream (init ++ [{ last with buffer := last.buffer ++ chunk }]) = stream (init ++ [last]) ++ chunk := by
  have written := payload_writeAt two low le_rfl chunk
  rw [writeAt_end] at written
  have length : last.buffer.length - getHlen last.buffer * 4 = last.payload.length := by
    simp [payload]
  constructor
  · simp [put, count, frags, writeAt_end]
  · rw [stream_append, stream_append, append_assoc]
    congr 1
    simp [stream, written, length, writeAt_end]

section

variable {tx : PacketTxmng} {first : FragmentPacketItem} {rest : List FragmentPacketItem}
    (frags : tx.fragmentlist = first :: rest) (hlen : getHlen first.buffer * 4 = tx.ctrlmsg)
include frags hlen

theorem readBe16_stream (ctrl : tx.ctrlmsg + 8 ≤ first.buffer.length) :
    readBe16 (stream tx.fragmentlist) 5 = readBe16 first.buffer (tx.ctrlmsg + 5) := by
  have byte (j : ℕ) (lt : j < 8) :
      byteAt (stream tx.fragmentlist) j = byteAt first.buffer (tx.ctrlmsg + j) := by
    have long : j < first.payload.length := by
      simp only [payload, length_drop]
      omega
    have : (stream tx.fragmentlist)[j]? = first.buffer[tx.ctrlmsg + j]? := by
      rw [frags, ← hlen]
      simp only [stream, flatMap_cons]
      rw [getElem?_append_left long, payload, getElem?_drop]
    simp [byteAt, getD_eq_getElem?_getD, this]
  simp [readBe16, byte 5 (by omega), byte (5 + 1) (by omega), Nat.add_assoc]

theorem stream_addLength (positive : 2 ≤ tx.ctrlmsg) (ctrl : tx.ctrlmsg + 8 ≤ first.buffer.length) (growth : ℕ) :
    stream (tx.addLength growth).fragmentlist = writeAt (stream tx.fragmentlist) 5
          (be16 (readBe16 (stream tx.fragmentlist) 5 + growth)) ∧
      (tx.addLength growth).fragmentlist.map outline =
        tx.fragmentlist.map outline := by
  have long : 8 ≤ first.payload.length := by
    simp only [payload, length_drop]
    omega
  have low : getHlen first.buffer * 4 ≤ tx.ctrlmsg + 5 := by omega
  have high : tx.ctrlmsg + 5 ≤ first.buffer.length := by omega
  have within (n : ℕ) : tx.ctrlmsg + 5 + (be16 n).length ≤ first.buffer.length := by
    simp only [length_be16]
    omega
  have written := payload_writeAt (by omega) low high
    (be16 (readBe16 first.buffer (tx.ctrlmsg + 5) + growth))
  have outline := outline_writeAt (by omega)
    (within (readBe16 first.buffer (tx.ctrlmsg + 5) + growth))
  rw [readBe16_stream frags hlen ctrl]
  constructor
  · simp only [addLength, frags, stream, modifyHead_cons, flatMap_cons]
    rw [written, writeAt_append_left (by simp only [length_be16]; omega)]
    congr 2
    omega
  · simp [addLength, frags, modifyHead_cons, map_cons, outline]

end

end PacketTxmng

end OpenWifi.CapwapProtocol
