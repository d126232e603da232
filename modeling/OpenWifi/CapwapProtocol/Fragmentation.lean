import OpenWifi.CapwapProtocol.WriteLoop

/-!
# Fragmentation of a control message

The writer refines the layout: after any calls the payloads of the fragments are the control message header followed by
what the layout shows.
-/

namespace OpenWifi.CapwapProtocol

open List Option PacketTxmng FragmentPacketItem

/-- The first fragment has a header of `hl` bytes and holds the control message, all fragments but
the last are full. -/
structure Shaped (hl mtu : ℕ) (os : List Outline) : Prop where
  head : ∃ o rest, os = o :: rest ∧ o.hlen * 4 = hl ∧ hl + 8 ≤ o.offset ∧ ∀ o' ∈ rest, o'.hlen = 2 ∧ 8 ≤ o'.offset
  bounded : ∀ o ∈ os, o.offset ≤ o.size ∧ o.size ≤ mtu ∧ (o.size - o.hlen * 4) % 8 = 0
  full : ∀ o ∈ os.dropLast, o.offset = o.size

variable {hl mtu : ℕ}

theorem Shaped.header_le (large : 8 ≤ hl) {os : List Outline} (h : Shaped hl mtu os) {o : Outline}
    (mem : o ∈ os) : 8 ≤ o.hlen * 4 ∧ o.hlen * 4 ≤ o.offset := by
  obtain ⟨first, rest, rfl, hlen, ctrl, others⟩ := h.head
  rcases mem_cons.1 mem with rfl | later
  · omega
  · have := others o later
    omega

theorem Shaped.extend {init : List Outline} {o : Outline} (h : Shaped hl mtu (init ++ [o])) {n : ℕ}
    (fits : o.offset + n ≤ o.size) : Shaped hl mtu (init ++ [{ o with offset := o.offset + n }]) := by
  obtain ⟨first, rest, e, hlen, ctrl, others⟩ := h.head
  refine ⟨?_, ?_, ?_⟩
  · cases init with
    | nil =>
      simp only [nil_append, List.cons.injEq] at e
      obtain ⟨rfl, rfl⟩ := e
      exact ⟨_, _, rfl, hlen, by simp only; omega, by simp⟩
    | cons i init =>
      simp only [cons_append, List.cons.injEq] at e
      obtain ⟨rfl, rfl⟩ := e
      obtain ⟨old, new⟩ := forall_mem_append.1 others
      have := forall_mem_singleton.1 new
      exact ⟨_, _, rfl, hlen, ctrl, forall_mem_append.2 ⟨old, forall_mem_singleton.2 (by simp only; omega)⟩⟩
  · obtain ⟨old, new⟩ := forall_mem_append.1 h.bounded
    have := forall_mem_singleton.1 new
    exact forall_mem_append.2 ⟨old, forall_mem_singleton.2 (by simp only; omega)⟩
  · simpa using h.full

theorem Shaped.add {os : List Outline} (h : Shaped hl mtu os) (allFull : ∀ o ∈ os, o.offset = o.size)
    {o : Outline} (hlen : o.hlen = 2) (offset : o.offset = 8) (size : 8 ≤ o.size ∧ o.size ≤ mtu)
    (eight : (o.size - 8) % 8 = 0) : Shaped hl mtu (os ++ [o]) := by
  obtain ⟨first, rest, rfl, first_hlen, ctrl, others⟩ := h.head
  refine ⟨⟨first, rest ++ [o], rfl, first_hlen, ctrl, forall_mem_append.2 ⟨others, forall_mem_singleton.2 ?_⟩⟩,
    forall_mem_append.2 ⟨h.bounded, forall_mem_singleton.2 ?_⟩, ?_⟩
  · omega
  · rw [hlen]
    omega
  · rw [dropLast_concat]
    exact allFull

theorem be16_mod (a b : ℕ) : be16 (a % 65536 + b) = be16 (a + b) := by
  simp only [be16, List.cons.injEq, and_true, ← UInt8.toNat_inj, UInt8.toNat_ofNat']
  omega

theorem readBe16_controlMessage (type seq n : ℕ) (rest : List UInt8) :
    readBe16 (controlMessage type seq n ++ rest) 5 = n % 65536 := by
  simp [readBe16, byteAt, controlMessage, be32, be16, UInt8.toNat_ofNat']
  omega

theorem controlMessage_addLength (type seq n growth : ℕ) (rest : List UInt8) :
    writeAt (controlMessage type seq n ++ rest) 5 (be16 (readBe16 (controlMessage type seq n ++ rest) 5 + growth)) =
      controlMessage type seq (n + growth) ++ rest := by
  rw [readBe16_controlMessage, be16_mod]
  rfl

def PacketTxmng.outlines (tx : PacketTxmng) : List Outline :=
  tx.fragmentlist.map outline

/-- The fragments show the control message followed by `shown`, and have `room` bytes left. -/
structure Shows (hl mtu type seq : ℕ) (tx : PacketTxmng) (shown : List UInt8) (room : ℕ) : Prop where
  mtu_eq : tx.mtu = mtu
  ctrlmsg_eq : tx.ctrlmsg = hl
  shaped : Shaped hl mtu tx.outlines
  room_eq : ∀ init o, tx.outlines = init ++ [o] → o.size - o.offset = room
  stream_eq : stream tx.fragmentlist = controlMessage type seq (controlMessageMinLength + shown.length) ++ shown

variable {type seq : ℕ} {tx : PacketTxmng} {shown : List UInt8} {room : ℕ}

section

variable (h : Shows hl mtu type seq tx shown room)
include h

theorem Shows.count (n : ℕ) : Shows hl mtu type seq (tx.count n) shown room :=
  ⟨h.mtu_eq, h.ctrlmsg_eq, h.shaped, h.room_eq, h.stream_eq⟩

theorem Shows.exists_last : ∃ init last, tx.fragmentlist = init ++ [last] ∧
      tx.outlines = init.map outline ++ [last.outline] ∧
      tx.endPos = ⟨init.length, last.buffer.length⟩ := by
  obtain ⟨o, rest, e, _⟩ := h.shaped.head
  rcases eq_nil_or_concat tx.fragmentlist with nil | ⟨init, last, frags⟩
  · simp [outlines, nil] at e
  · rw [concat_eq_append] at frags
    refine ⟨init, last, frags, by simp [outlines, frags], ?_⟩
    simp [endPos, frags, offset]

theorem Shows.space_end : tx.space tx.endPos = room := by
  obtain ⟨init, last, frags, outlines, endPos⟩ := h.exists_last
  rw [← h.room_eq _ _ outlines]
  simp [space, endPos, frags, outline]

end

theorem Shows.put_end (large : 8 ≤ hl) (h : Shows hl mtu type seq tx shown room)
    {init : List FragmentPacketItem} {last : FragmentPacketItem}
    (frags : tx.fragmentlist = init ++ [last]) (chunk : List UInt8)
    (fits : last.buffer.length + chunk.length ≤ last.size) :
    let tx' := (tx.put ⟨init.length, last.buffer.length⟩ last chunk).addLength chunk.length
    Shows hl mtu type seq tx' (shown ++ chunk) (room - chunk.length) ∧
      tx'.outlines = init.map outline ++
        [{ last.outline with offset := last.buffer.length + chunk.length }] := by
  have outlines : tx.outlines = init.map outline ++ [last.outline] := by
    simp [PacketTxmng.outlines, frags]
  have shaped := h.shaped
  rw [outlines] at shaped
  obtain ⟨long, low⟩ := shaped.header_le large (mem_append_right _ (mem_singleton_self _))
  change getHlen last.buffer * 4 ≤ last.buffer.length at low
  change 8 ≤ getHlen last.buffer * 4 at long
  obtain ⟨list, bytes⟩ := PacketTxmng.stream_put_end frags (by omega) low chunk
  have grown : outline { last with buffer := last.buffer ++ chunk } =
      { last.outline with offset := last.buffer.length + chunk.length } := by
    have : getHlen (last.buffer ++ chunk) = getHlen last.buffer := getHlen_congr (getElem?_append_left (by omega))
    simp [outline, this]
  have shaped' := shaped.extend (n := chunk.length) fits
  have outlines' : (init ++ [{ last with buffer := last.buffer ++ chunk }]).map outline =
      init.map outline ++ [{ last.outline with offset := last.buffer.length + chunk.length }] := by simp [grown]
  -- the control message lies in the first fragment, which may be the one that grew
  obtain ⟨o, rest, e, hlen, ctrl, _⟩ := shaped'.head
  rw [← h.ctrlmsg_eq] at hlen ctrl
  obtain ⟨first, rest', list', rfl, -⟩ := map_eq_cons_iff.1 (outlines'.trans e)
  obtain ⟨streamed, same⟩ := PacketTxmng.stream_addLength (list.trans list') hlen
    (h.ctrlmsg_eq ▸ (by omega : 2 ≤ hl)) ctrl chunk.length
  have final := same.trans ((congrArg _ list).trans outlines')
  refine ⟨⟨h.mtu_eq, h.ctrlmsg_eq, ?_, ?_, ?_⟩, final⟩
  · rw [PacketTxmng.outlines, final]
    exact shaped'
  · intro init' o' e'
    have := h.room_eq _ _ outlines
    have last_eq := (append_inj' (final.symm.trans e') rfl).2
    rw [← singleton_injective last_eq]
    simp only [outline] at this ⊢
    omega
  · rw [streamed, list, bytes, ← frags, h.stream_eq, append_assoc, controlMessage_addLength,
      length_append, Nat.add_assoc]

/-- The outlines before and after a write: `n` bytes go into the last fragment, and if there are none a new one is
opened. -/
def Grown (n : ℕ) (os os' : List Outline) : Prop :=
  ∃ init o rest, os = init ++ [o] ∧ os' = init ++ { o with offset := o.offset + n } :: rest ∧ (n = 0 → rest ≠ [])

theorem Shows.fill (large : 8 ≤ hl) (h : Shows hl mtu type seq tx shown room) (positive : 0 < room)
    {data : List UInt8} (some_data : data ≠ []) : ∃ tx', tx.writeBlock data = some (0, tx') ∧
      Shows hl mtu type seq tx' (shown ++ data.take room) (room - data.length) ∧
      Grown (min data.length room) tx.outlines tx'.outlines := by
  obtain ⟨init, last, frags, outlines, endPos⟩ := h.exists_last
  have left : last.size - last.buffer.length = room := h.room_eq _ _ outlines
  have item : tx.fragmentlist[(WriteBlockFromPos.mk init.length last.buffer.length).item]? =
      some last := by simp [frags]
  have apart : init.length = 0 → tx.ctrlmsg + 7 ≤ last.buffer.length := by
    intro empty
    obtain ⟨o, rest, e, _, ctrl, _⟩ := h.shaped.head
    rw [outlines, length_eq_zero_iff.1 empty] at e
    cases e
    simp only [outline] at ctrl
    have := h.ctrlmsg_eq
    omega
  have loop := writeLoop_eq item le_rfl apart (by simp only; omega) data
  simp only [left] at loop
  have taken : (data.take room).length = min data.length room := by
    rw [length_take, Nat.min_comm]
  have some_bytes : 0 < min data.length room := by
    have := length_pos_iff.2 some_data
    omega
  rw [copy_beyond item (by simp only [offset]; omega)] at loop
  simp only [offset, Nat.add_sub_cancel_left] at loop
  obtain ⟨shows, grown⟩ := h.put_end large frags (data.take room) (by omega)
  refine ⟨_, by rw [writeBlock, endPos]; exact loop, ?_, ?_⟩
  · rw [show room - (data.take room).length = room - data.length by omega] at shows
    exact shows.count _
  · rw [← taken] at some_bytes ⊢
    exact ⟨_, _, [], outlines, grown, fun none => absurd none (by omega)⟩

theorem Shows.advance (large : 8 ≤ hl) (mtu_ge : hl + 8 ≤ mtu) (h : Shows hl mtu type seq tx shown 0) :
    ∃ tx', tx.advance tx.endPos = (tx', tx'.endPos) ∧ Shows hl mtu type seq tx' shown (mtu - 8 - (mtu - 8) % 8) ∧
      ∃ o, tx'.outlines = tx.outlines ++ [o] := by
  obtain ⟨init, last, frags, outlines, endPos⟩ := h.exists_last
  have header : tx.header.length = 8 := by
    obtain ⟨o, rest, e, _, ctrl, _⟩ := h.shaped.head
    obtain ⟨first, rest', list, rfl, -⟩ := map_eq_cons_iff.1 e
    simp only [outline] at ctrl
    simp only [PacketTxmng.header, list, headerSize, head?_cons, elim_some, length_take]
    omega
  have fresh : tx.newFragment.outline = ⟨mtu - (mtu - 8) % 8, 8, 2⟩ := by
    have : 1 < (setFlag .w (setFlag .m tx.header false) false).length := by simp [header]
    simp [outline, PacketTxmng.newFragment, header, headerSize, h.mtu_eq, getHlen_setHlen this]
  have allFull : ∀ o ∈ tx.outlines, o.offset = o.size := by
    have full := h.shaped.full
    have left := h.room_eq _ _ outlines
    have := (h.shaped.bounded _ (outlines ▸ mem_append_right _ (mem_singleton_self _))).1
    rw [outlines, dropLast_concat] at full
    exact outlines ▸ forall_mem_append.2 ⟨full, forall_mem_singleton.2 (by omega)⟩
  have empty : tx.newFragment.payload = [] := by
    apply length_eq_zero_iff.1
    rw [length_payload, fresh]
    rfl
  have outlines' : (tx.fragmentlist ++ [tx.newFragment]).map outline =
      tx.outlines ++ [⟨mtu - (mtu - 8) % 8, 8, 2⟩] := by
    simp [PacketTxmng.outlines, fresh]
  refine ⟨{ tx with fragmentlist := tx.fragmentlist ++ [tx.newFragment] }, ?_, ?_, _, outlines'⟩
  · have none : tx.fragmentlist[tx.endPos.item + 1]? = none := by simp [endPos, frags]
    unfold PacketTxmng.advance
    simp only [none, Prod.mk.injEq, true_and]
    simp [PacketTxmng.endPos, frags]
  · refine ⟨h.mtu_eq, h.ctrlmsg_eq, ?_, ?_, ?_⟩
    · rw [PacketTxmng.outlines, outlines']
      exact h.shaped.add allFull rfl rfl (by simp only; omega) (by simp only; omega)
    · intro init' o e
      have last_eq := (append_inj' (outlines'.symm.trans e) rfl).2
      rw [← singleton_injective last_eq]
      simp only
      omega
    · rw [stream_append, h.stream_eq]
      simp [stream, empty]

theorem Shows.write (large : 8 ≤ hl) (mtu_ge : hl + 8 ≤ mtu) {fresh : ℕ}
    (fresh_eq : fresh = mtu - 8 - (mtu - 8) % 8) (h : Shows hl mtu type seq tx shown room)
    {data : List UInt8} (some_data : data ≠ []) {space : ℕ} (space_eq : space = if room = 0 then fresh else room) :
    ∃ tx', tx.writeBlock data = some (0, tx') ∧
      Shows hl mtu type seq tx' (shown ++ data.take space) (space - data.length) ∧
      Grown (min data.length room) tx.outlines tx'.outlines := by
  rcases Nat.eq_zero_or_pos room with zero | positive
  · subst zero
    rw [if_pos rfl, fresh_eq] at space_eq
    obtain ⟨tx₁, advance, shows, o, added⟩ := h.advance large mtu_ge
    rw [← space_eq] at shows
    obtain ⟨tx', write, shows', init, o', rest, e, e', _⟩ := shows.fill large (by omega) some_data
    obtain ⟨n, length⟩ := Nat.exists_eq_succ_of_ne_zero (length_pos_iff.2 some_data).ne'
    refine ⟨tx', ?_, shows', ?_⟩
    · have moved := writeLoop_advance data n n h.space_end
        (by rw [advance, shows.space_end]; omega)
      rw [advance] at moved
      rw [← write, writeBlock, writeBlock, writeBlockFromPos,
        writeBlockFromPos, length, moved]
    · obtain ⟨_, _, _, outlines, _⟩ := h.exists_last
      obtain ⟨same, -⟩ := append_inj' (added.symm.trans e) rfl
      rw [← same, outlines, append_assoc] at e'
      rw [Nat.min_zero]
      exact ⟨_, _, _, outlines, e', fun _ => cons_ne_nil _ _⟩
  · rw [if_neg positive.ne'] at space_eq
    rw [space_eq]
    exact h.fill large positive some_data

/-- The saved position stands for a field that starts at `f.1` of the shown bytes and of which an
overwrite reaches `f.2` bytes. -/
def Placed (os : List Outline) (writepos : WriteBlockFromPos) (f : ℕ × ℕ) : Prop :=
  ∃ o, os[writepos.item]? = some o ∧ o.hlen * 4 ≤ writepos.pos ∧ writepos.pos + f.2 ≤ o.offset ∧
    f.2 = min 2 (o.size - writepos.pos) ∧
    f.1 + 8 = bodies (os.take writepos.item) + (writepos.pos - o.hlen * 4) ∧
    (f.2 = 0 → writepos.item + 1 < os.length)

variable {writepos : WriteBlockFromPos}

theorem Placed.grown {n : ℕ} {os os' : List Outline} (g : Grown n os os')
    {f : ℕ × ℕ} (h : Placed os writepos f) : Placed os' writepos f := by
  obtain ⟨init, last, rest, rfl, rfl, -⟩ := g
  obtain ⟨o, item, low, reach, width, start, next⟩ := h
  have lt : writepos.item < init.length + 1 := by
    simpa using (List.getElem?_eq_some_iff.1 item).1
  have before (x : List Outline) : (init ++ x).take writepos.item = init.take writepos.item :=
    take_append_of_le_length (by omega)
  rw [before] at start
  rcases Nat.lt_or_ge writepos.item init.length with inner | outer
  · rw [getElem?_append_left inner] at item
    refine ⟨o, by rw [getElem?_append_left inner, item], low, reach, width, ?_, ?_⟩
    · rw [before, start]
    · intro zero
      simp only [length_append, length_cons]
      omega
  · obtain e : writepos.item = init.length := by omega
    rw [e, getElem?_append_right le_rfl] at item
    obtain rfl : last = o := by simpa using item
    refine ⟨{ last with offset := last.offset + n }, by simp [e], low, ?_, width, ?_, ?_⟩
    · simp only
      omega
    · rw [before, start]
    · intro zero
      have := next zero
      simp [e] at this

theorem Shows.placed_end (large : 8 ≤ hl) (h : Shows hl mtu type seq tx shown room) {os' : List Outline}
    (g : Grown (min 2 room) tx.outlines os') : Placed os' tx.endPos (shown.length, min 2 room) := by
  obtain ⟨init, last, frags, outlines, endPos⟩ := h.exists_last
  have left := h.room_eq _ _ outlines
  have total := congrArg List.length h.stream_eq
  rw [length_stream, ← PacketTxmng.outlines, outlines] at total
  obtain ⟨init', o, rest, e, rfl, opened⟩ := g
  obtain ⟨rfl, one⟩ := append_inj' (outlines.symm.trans e) rfl
  obtain rfl := singleton_injective one
  have low := (h.shaped.header_le large (outlines ▸ mem_append_right _ (mem_singleton_self _))).2
  simp only [outline] at left low
  refine ⟨{ last.outline with offset := last.outline.offset + min 2 room }, by simp [endPos], ?_, ?_, ?_, ?_, ?_⟩
  · rw [endPos]
    exact low
  · simp [endPos, outline]
  · simp [endPos, outline, left]
  · have before (x : List Outline) : (init.map outline ++ x).take init.length =
        init.map outline := take_left' (by simp)
    simp only [endPos, before]
    simp [bodies, Outline.body, controlMessage, outline] at total ⊢
    omega
  · intro zero
    have := length_pos_iff.2 (opened zero)
    simp only [endPos, length_append, length_map, length_cons]
    omega

theorem Shows.rewrite (h : Shows hl mtu type seq tx shown room) {tx' : PacketTxmng}
    {shown' : List UInt8} (mtu_eq : tx'.mtu = tx.mtu) (ctrlmsg_eq : tx'.ctrlmsg = tx.ctrlmsg)
    (same : tx'.outlines = tx.outlines)
    (bytes : stream tx'.fragmentlist = controlMessage type seq (controlMessageMinLength + shown.length) ++ shown') :
    Shows hl mtu type seq tx' shown' room := by
  have length : shown'.length = shown.length := by
    have before := congrArg List.length h.stream_eq
    have after := congrArg List.length bytes
    rw [length_stream, length_append] at before after
    unfold outlines at same
    rw [same] at after
    have : ∀ n, (controlMessage type seq n).length = 8 := fun _ => rfl
    simp only [this] at before after
    omega
  exact ⟨mtu_eq.trans h.mtu_eq, ctrlmsg_eq.trans h.ctrlmsg_eq, same ▸ h.shaped, same ▸ h.room_eq, length ▸ bytes⟩

theorem Shows.overwrite_header (h : Shows hl mtu type seq tx shown room)
    {k : ℕ} (p : Placed tx.outlines writepos (k, 0)) (v : ℕ) :
    ∃ tx', tx.writeBlockFromPos (be16 v) writepos = some (0, tx') ∧
      Shows hl mtu type seq tx' shown room ∧ tx'.outlines = tx.outlines := by
  obtain ⟨o, item, low, reach, width, start, next⟩ := p
  have next := next rfl
  rw [PacketTxmng.outlines, getElem?_map, map_eq_some_iff] at item
  obtain ⟨f, item, rfl⟩ := item
  rw [PacketTxmng.outlines, length_map] at next
  obtain ⟨g, following⟩ : ∃ g, tx.fragmentlist[writepos.item + 1]? = some g := ⟨_, getElem?_eq_getElem next⟩
  obtain ⟨hlen, long⟩ : getHlen g.buffer = 2 ∧ 8 ≤ g.buffer.length := by
    obtain ⟨first, rest, e, _, _, others⟩ := h.shaped.head
    refine others g.outline ?_
    have : tx.outlines[writepos.item + 1]? = some g.outline := by
      rw [PacketTxmng.outlines, getElem?_map, following]
      rfl
    rw [e, getElem?_cons_succ] at this
    exact mem_of_getElem? this
  have size : g.buffer.length ≤ g.size := by
    refine (h.shaped.bounded g.outline ?_).1
    exact mem_map_of_mem (mem_of_getElem? following)
  have advance : tx.advance writepos = (tx, ⟨writepos.item + 1, 2⟩) := by
    unfold PacketTxmng.advance
    simp [following, hlen]
  have full : tx.space writepos = 0 := by
    rw [PacketTxmng.space_eq item]
    simp only [outline] at width
    omega
  have item' : tx.fragmentlist[(WriteBlockFromPos.mk (writepos.item + 1) 2).item]? = some g := following
  have moved := PacketTxmng.writeLoop_advance (be16 v) 1 1 full
    (by rw [advance, PacketTxmng.space_eq item']; simp only; omega)
  have loop := PacketTxmng.writeLoop_eq item' (by simp only; omega) (by simp) (by simp only; omega)
    (be16 v)
  rw [advance] at moved
  have taken : (be16 v).take (g.size - 2) = be16 v := take_of_length_le (by simp; omega)
  rw [taken, PacketTxmng.copy_within item' (by simp [offset]; omega)] at loop
  have within : 2 + (be16 v).length ≤ g.buffer.length := by simp; omega
  have same : PacketTxmng.outlines (tx.put ⟨writepos.item + 1, 2⟩ g (be16 v)) = tx.outlines :=
    map_outline_set following (outline_writeAt le_rfl within)
  have bytes : stream (tx.put ⟨writepos.item + 1, 2⟩ g (be16 v)).fragmentlist = stream tx.fragmentlist := by
    simp only [PacketTxmng.put, PacketTxmng.count]
    rw [stream_set next, payload_writeAt_header le_rfl (by simp [hlen]) (by omega), ← stream_split following]
  have shows : Shows hl mtu type seq (tx.put ⟨writepos.item + 1, 2⟩ g (be16 v)) shown room :=
    h.rewrite rfl rfl same (bytes.trans h.stream_eq)
  exact ⟨_, moved.trans loop, shows.count _, same⟩

section

variable (large : 8 ≤ hl) (h : Shows hl mtu type seq tx shown room) {k width : ℕ}
    (p : Placed tx.outlines writepos (k, width))
include large h p

theorem Shows.overwrite_field (positive : 0 < width) (v : ℕ) :
    ∃ tx', tx.writeBlockFromPos (be16 v) writepos = some (0, tx') ∧
      Shows hl mtu type seq tx' (writeAt shown k ((be16 v).take width)) room ∧ tx'.outlines = tx.outlines := by
  obtain ⟨o, item, low, reach, width_eq, start, -⟩ := p
  rw [outlines, getElem?_map, map_eq_some_iff] at item
  obtain ⟨f, item, rfl⟩ := item
  obtain ⟨long, -⟩ := h.shaped.header_le large (mem_map_of_mem (mem_of_getElem? item))
  simp only [outline] at low reach width_eq start long
  have apart : writepos.item = 0 → tx.ctrlmsg + 7 ≤ writepos.pos := by
    intro first
    obtain ⟨o, rest, e, hlen, -, -⟩ := h.shaped.head
    obtain ⟨f', rest', list, rfl, -⟩ := map_eq_cons_iff.1 e
    obtain rfl : f' = f := by simpa [list, first] using item
    simp only [outline] at hlen
    simp only [first, take_zero, bodies, map_nil, sum_nil] at start
    have := h.ctrlmsg_eq
    omega
  have loop := writeLoop_eq item (by omega) apart (by omega) (be16 v)
  have taken : (be16 v).take (f.size - writepos.pos) = (be16 v).take width := by
    rw [take_eq_take_iff, length_be16]
    omega
  have length : ((be16 v).take width).length = width := by
    rw [length_take, length_be16]
    omega
  rw [taken, copy_within item (by rw [length]; exact reach)] at loop
  have within : writepos.pos + ((be16 v).take width).length ≤ f.buffer.length := by omega
  have same : outlines (tx.put writepos f ((be16 v).take width)) = tx.outlines :=
    map_outline_set item (outline_writeAt (by omega) within)
  have place : (stream (tx.fragmentlist.take writepos.item)).length + (writepos.pos - getHlen f.buffer * 4) =
      (controlMessage type seq (controlMessageMinLength + shown.length)).length + k := by
    rw [length_stream, map_take]
    change bodies (tx.outlines.take writepos.item) + _ = 8 + k
    omega
  have bytes := stream_put item (by omega) low within
  rw [place, h.stream_eq, writeAt_append_right] at bytes
  have shows : Shows hl mtu type seq (tx.put writepos f ((be16 v).take width)) _ room := h.rewrite rfl rfl same bytes
  exact ⟨_, loop, shows.count _, same⟩

theorem Shows.overwrite (v : ℕ) : ∃ tx', tx.writeBlockFromPos (be16 v) writepos = some (0, tx') ∧
      Shows hl mtu type seq tx' (writeAt shown k ((be16 v).take width)) room ∧ tx'.outlines = tx.outlines := by
  rcases Nat.eq_zero_or_pos width with rfl | positive
  · simpa using h.overwrite_header p v
  · exact h.overwrite_field large p positive v

end

def freshSpace (mtu : ℕ) : ℕ := mtu - headerSize - (mtu - headerSize) % 8

/-- The space of the first fragment behind the control message, for a header of `hl` bytes. -/
def firstSpace (hl mtu : ℕ) : ℕ := mtu - (mtu - hl) % 8 - (hl + controlMessageSize)

structure Represents (hl mtu type seq : ℕ) (w : Writer) (lay : Layout) : Prop where
  shows : Shows hl mtu type seq w.tx lay.shown lay.room
  saved : w.writepos.length = lay.fields.length
  placed : ∀ (i : ℕ) writepos f, w.writepos[i]? = some writepos → lay.fields[i]? = some f →
    Placed w.tx.outlines writepos f

variable {w : Writer} {lay : Layout}

section

variable (large : 8 ≤ hl) (mtu_ge : hl + 8 ≤ mtu) (h : Represents hl mtu type seq w lay)
include large mtu_ge h

theorem Represents.append (data : List UInt8) : ∃ tx', w.tx.writeBlock data = some (0, tx') ∧
      Represents hl mtu type seq { w with tx := tx' } (lay.append (freshSpace mtu) data) ∧
      (data.length = 2 → Placed tx'.outlines w.tx.endPos (lay.shown.length, min 2 lay.room)) := by
  by_cases nil : data = []
  · subst nil
    exact ⟨w.tx, rfl, h, by simp⟩
  · have space : lay.space (freshSpace mtu) = _ := rfl
    obtain ⟨tx', write, shows, grown⟩ := h.shows.write large mtu_ge rfl nil space
    refine ⟨tx', write, ⟨?_, ?_, ?_⟩, ?_⟩
    · simpa [Layout.append, nil] using shows
    · rw [Layout.append_fields]
      exact h.saved
    · rw [Layout.append_fields]
      exact fun i writepos f a b => (h.placed i writepos f a b).grown grown
    · intro two
      rw [two] at grown
      exact h.shows.placed_end large grown

theorem Represents.exec (c : Call) :
    ∃ w', w.exec c = some w' ∧ Represents hl mtu type seq w' (lay.step (freshSpace mtu) c) := by
  induction c using Call.byKind with
  | write c write =>
    obtain ⟨tx', written, rep, -⟩ := h.append large mtu_ge c.bytes
    refine ⟨{ w with tx := tx' }, ?_, ?_⟩
    · cases c <;>
        simp_all [Writer.exec, writeU8, writeU16, writeU32,
          Call.bytes, Call.IsWrite, report]
    · rw [Layout.step_write _ _ write]
      exact rep
  | reserve =>
    obtain ⟨tx', written, rep, placed⟩ := h.append large mtu_ge [0, 0]
    have kept := rep.placed
    have saved := rep.saved
    rw [Layout.append_fields] at kept saved
    refine ⟨⟨tx', w.writepos ++ [w.tx.endPos]⟩, ?_, rep.shows, ?_, ?_⟩
    · change (Option.map _ (Option.map _ (w.tx.writeBlock [0, 0]))) = _
      rw [written]
      rfl
    · simpa [Layout.step] using saved
    · intro i writepos f a b
      simp only [Layout.step] at b
      rcases Nat.lt_trichotomy i w.writepos.length with low | last | high
      · rw [getElem?_append_left low] at a
        rw [getElem?_append_left (by simpa using saved ▸ low)] at b
        exact kept i writepos f a b
      · obtain rfl : w.tx.endPos = writepos := by simpa [last] using a
        obtain rfl : (lay.shown.length, min 2 lay.room) = f := by simpa [last, saved] using b
        exact placed rfl
      · rw [getElem?_eq_none (by simp; omega)] at a
        exact absurd a (by simp)
  | overwrite field data =>
    cases e : w.writepos[field]? with
    | none =>
      have e' : lay.fields[field]? = none := by
        rw [getElem?_eq_none_iff] at e ⊢
        have := h.saved
        omega
      exact ⟨w, by simp [Writer.exec, e], by simpa [Layout.step, e'] using h⟩
    | some writepos =>
      obtain ⟨f, e'⟩ : ∃ f, lay.fields[field]? = some f := by
        have := (List.getElem?_eq_some_iff.1 e).1
        exact ⟨_, getElem?_eq_getElem (h.saved ▸ this)⟩
      obtain ⟨tx', written, shows, same⟩ := h.shows.overwrite large (h.placed _ _ _ e e') data.toNat
      refine ⟨{ w with tx := tx' }, ?_, ?_⟩
      · simp [Writer.exec, e, writeU16FromPos, written, report]
      · have step : lay.step (freshSpace mtu) (.overwrite field data) =
            { lay with shown := writeAt lay.shown f.1 ((be16 data.toNat).take f.2) } := by
          simp [Layout.step, e']
        rw [step]
        exact ⟨shows, h.saved, same ▸ h.placed⟩

theorem Represents.run (calls : List Call) :
    ∃ w', w.run calls = some w' ∧ Represents hl mtu type seq w' (lay.run (freshSpace mtu) calls) := by
  induction calls generalizing w lay with
  | nil => exact ⟨w, rfl, h⟩
  | cons c cs ih =>
    obtain ⟨w₁, exec, rep⟩ := h.exec large mtu_ge c
    obtain ⟨w', run, rep'⟩ := ih rep
    exact ⟨w', by rw [Writer.run, exec]; exact run, rep'⟩

end

section

variable {hd : HeaderData} {type seq mtu : ℕ} {tx : PacketTxmng} (created : createCtrlMessage hd type seq mtu = some tx)
include created

theorem createCtrlMessage_eq : hd.length + 8 ≤ mtu ∧ tx = ⟨mtu, [⟨mtu - (mtu - hd.length) % 8,
        hd.headerbuffer ++ controlMessage type seq controlMessageMinLength⟩], hd.length, 0⟩ := by
  unfold createCtrlMessage at created
  split at created
  case isTrue => simp at created
  case isFalse accepted =>
    simp only [controlMessageSize] at accepted
    exact ⟨by omega, (some.inj created).symm⟩

theorem represents_create :
    hd.length + 8 ≤ mtu ∧ Represents hd.length mtu type seq ⟨tx, []⟩ (Layout.start (firstSpace hd.length mtu)) := by
  obtain ⟨mtu_ge, rfl⟩ := createCtrlMessage_eq created
  refine ⟨mtu_ge, ?_, rfl, by simp⟩
  have large := hd.headerSize_le
  simp only [headerSize] at large
  have length : hd.headerbuffer.length = hd.length := hd.length_eq.trans (Nat.mul_comm _ _)
  have hlen (rest : List UInt8) : getHlen (hd.headerbuffer ++ rest) = getHlen hd.headerbuffer :=
    getHlen_congr (getElem?_append_left (by omega))
  have outline : outline ⟨mtu - (mtu - hd.length) % 8,
      hd.headerbuffer ++ controlMessage type seq controlMessageMinLength⟩ =
      ⟨mtu - (mtu - hd.length) % 8, hd.length + 8, getHlen hd.headerbuffer⟩ := by
    simp [outline, hlen, length, controlMessage]
  have four : getHlen hd.headerbuffer * 4 = hd.length := rfl
  refine ⟨rfl, rfl, ⟨⟨_, [], rfl, ?_, ?_, by simp⟩, ?_, by simp [outlines]⟩, ?_, ?_⟩
  · simp [outline, four]
  · simp only [outline]
    omega
  · simp only [outlines, map_cons, map_nil, mem_singleton, outline, forall_eq, four]
    omega
  · intro init o e
    have last_eq := (append_inj' (show [] ++ [_] = _ from e) rfl).2
    rw [← singleton_injective last_eq, outline]
    rfl
  · have : payload ⟨mtu - (mtu - hd.length) % 8,
        hd.headerbuffer ++ controlMessage type seq controlMessageMinLength⟩ =
        controlMessage type seq controlMessageMinLength := by
      simp only [payload, hlen, four]
      exact drop_left' length
    simp [stream, this, Layout.start]

end

/-- The payloads are the message, no fragment is longer than the mtu, every payload but the last is a multiple of eight
bytes, and the control message has the length. -/
def WellWritten (tx : PacketTxmng) (message : List UInt8) : Prop :=
  (stream tx.fragmentlist).drop controlMessageSize = message ∧ (∀ f ∈ tx.fragmentlist, f.offset ≤ tx.mtu) ∧
    (∀ f ∈ tx.fragmentlist.dropLast, f.payload.length % 8 = 0) ∧
    tx.ctrlLength = controlMessageMinLength + message.length
  deriving Decidable

/-- No call is cut off, the fields reserved when a fragment was full hold zero in the end, and the length fits into its
field. -/
def Fits (hl mtu : ℕ) (calls : List Call) : Prop :=
  (Layout.start (firstSpace hl mtu)).Uncut (freshSpace mtu) calls ∧
    ((Layout.start (firstSpace hl mtu)).run (freshSpace mtu) calls).LostFieldsZero (content calls) ∧
    controlMessageMinLength + (content calls).length < 65536
  deriving Decidable

section

variable (h : Shows hl mtu type seq tx shown room)
include h

theorem Shows.offset_le : ∀ f ∈ tx.fragmentlist, f.offset ≤ tx.mtu := by
  intro f mem
  obtain ⟨le, le', -⟩ := h.shaped.bounded f.outline (mem_map_of_mem mem)
  rw [h.mtu_eq]
  exact le_trans le le'

theorem Shows.payload_mod : ∀ f ∈ tx.fragmentlist.dropLast, f.payload.length % 8 = 0 := by
  intro f mem
  have full := h.shaped.full f.outline (by
    rw [outlines, ← map_dropLast]
    exact mem_map_of_mem mem)
  have eight := (h.shaped.bounded f.outline (mem_map_of_mem ((dropLast_sublist _).subset mem))).2.2
  rw [length_payload, Outline.body, full]
  exact eight

theorem Shows.ctrlLength_eq : tx.ctrlLength = (controlMessageMinLength + shown.length) % 65536 := by
  obtain ⟨o, rest, e, hlen, ctrl, -⟩ := h.shaped.head
  obtain ⟨first, rest', list, rfl, -⟩ := map_eq_cons_iff.1 e
  rw [← h.ctrlmsg_eq] at hlen ctrl
  have read := readBe16_stream list hlen ctrl
  rw [h.stream_eq, readBe16_controlMessage] at read
  simp [ctrlLength, list, read]

end

/-- Every sequence of calls ends, and it writes the message its caller means exactly when it fits. -/
theorem run_wellWritten_iff {hd : HeaderData} {type seq mtu : ℕ} {tx : PacketTxmng}
    (created : createCtrlMessage hd type seq mtu = some tx) (calls : List Call) :
    ∃ w, Writer.run ⟨tx, []⟩ calls = some w ∧ (WellWritten w.tx (content calls) ↔ Fits hd.length mtu calls) := by
  obtain ⟨mtu_ge, start⟩ := represents_create created
  have large := hd.headerSize_le
  simp only [headerSize] at large
  obtain ⟨w, run, rep⟩ := start.run large mtu_ge calls
  refine ⟨w, run, ?_⟩
  have positive : 0 < freshSpace mtu := by
    simp only [freshSpace, headerSize]
    omega
  have exact_iff := Layout.shown_eq_iff positive (firstSpace hd.length mtu) calls
  have body : (stream w.tx.fragmentlist).drop controlMessageSize =
      ((Layout.start (firstSpace hd.length mtu)).run (freshSpace mtu) calls).shown := by
    rw [rep.shows.stream_eq]
    rfl
  have length := rep.shows.ctrlLength_eq
  unfold WellWritten Fits
  rw [body]
  constructor
  · rintro ⟨same, -, -, field⟩
    obtain ⟨uncut, zeros⟩ := exact_iff.1 same
    refine ⟨uncut, zeros, ?_⟩
    omega
  · rintro ⟨uncut, zeros, small⟩
    have same := exact_iff.2 ⟨uncut, zeros⟩
    refine ⟨same, rep.shows.offset_le, rep.shows.payload_mod, ?_⟩
    rw [length, same, Nat.mod_eq_of_lt small]

/-- A type, a length field that is filled in later and a value fill the first fragment; one more byte
opens the second. -/
theorem run_wellWritten_two_fragments : ∃ tx w, createCtrlMessage (headerInit 1 1) 25 7 24 = some tx ∧
      Writer.run ⟨tx, []⟩ [.writeU16 8, .reserve, .writeU32 1, .overwrite 0 5, .writeU8 9] = some w ∧
      WellWritten w.tx [0, 8, 0, 5, 0, 0, 0, 1, 9] := by
  have created : createCtrlMessage (headerInit 1 1) 25 7 24 = some _ := rfl
  obtain ⟨w, run, iff⟩ := run_wellWritten_iff created
    [.writeU16 8, .reserve, .writeU32 1, .overwrite 0 5, .writeU8 9]
  exact ⟨_, w, created, run, iff.2 (by decide)⟩

/-- The first fragment has room for eight bytes, and of a block of nine bytes the last one is lost. -/
theorem writeBlock_loses_ninth_byte : ∃ tx w, createCtrlMessage (headerInit 1 1) 25 7 24 = some tx ∧
      Writer.run ⟨tx, []⟩ [.writeBlock [1, 2, 3, 4, 5, 6, 7, 8, 9]] = some w ∧
      (stream w.tx.fragmentlist).drop controlMessageSize = [1, 2, 3, 4, 5, 6, 7, 8] ∧ w.tx.ctrlLength = 11 ∧
      ¬ WellWritten w.tx (content [.writeBlock [1, 2, 3, 4, 5, 6, 7, 8, 9]]) :=
  ⟨_, _, rfl, rfl, by decide, by decide, by decide⟩

end OpenWifi.CapwapProtocol
