import OpenWifi.CapwapProtocol.Reassembly
import OpenWifi.CapwapProtocol.WriteLoop

/-!
# Sender and receiver of a fragmented message

What the receiver answers to the stamped packets of a message, in whatever order they arrive.
-/

namespace OpenWifi.CapwapProtocol

open List Option PacketRxmng

/-! ## Stamped headers -/

theorem isFlag_congr {a b : List UInt8} (x : Flag) (h : byteAt a 3 = byteAt b 3) : isFlag x a = isFlag x b := by
  simp [isFlag, h]

variable {buf : List UInt8}

theorem isFlag_setFlag_self (long : 3 < buf.length) (x : Flag) (on : Bool) : isFlag x (setFlag x buf on) = on := by
  have small := byteAt_lt buf 3
  simp only [isFlag, setFlag, byteAt_set long, if_true, UInt8.toNat_ofNat']
  cases x <;> cases on <;> simp [Flag.bit] <;> omega

theorem isFlag_f_setFlag_l (long : 3 < buf.length) (on : Bool) : isFlag .f (setFlag .l buf on) = isFlag .f buf := by
  have small := byteAt_lt buf 3
  simp only [isFlag, setFlag, byteAt_set long, if_true, UInt8.toNat_ofNat', Flag.bit]
  rw [Bool.eq_iff_iff, beq_iff_eq, beq_iff_eq]
  cases on <;> simp <;> omega

theorem byteAt_setFragmentId (long : 6 ≤ buf.length) (id : ℕ) {i : ℕ}
    (other : i < 4 ∨ 6 ≤ i) : byteAt (setFragmentId buf id) i = byteAt buf i := by
  apply byteAt_congr
  rw [setFragmentId, getElem?_writeAt (by omega), if_neg (by simp; omega)]

theorem byteAt_setFragmentOffset (long : 8 ≤ buf.length) (off i : ℕ) :
    byteAt (setFragmentOffset buf off) i = if i = 7 then maskOffset off % 256
      else if i = 6 then (byteAt buf 6 % 8 ||| maskOffset off / 256) % 256 else byteAt buf i := by
  rw [setFragmentOffset, byteAt_set (by simp; omega), byteAt_set (by omega), UInt8.toNat_ofNat', UInt8.toNat_ofNat']

@[simp] theorem length_stamp (long : 8 ≤ buf.length) (f : Bool) (id off : ℕ)
    (l : Bool) : (stamp buf f id off l).length = buf.length := by
  simp only [stamp, length_setFlag, setFragmentOffset, length_set, setFragmentId]
  rw [length_writeAt_within (by simp; omega), length_setFlag]

theorem isFlag_stamp (long : 8 ≤ buf.length) (f : Bool) (id off : ℕ) (l : Bool) :
    isFlag .f (stamp buf f id off l) = f ∧ isFlag .l (stamp buf f id off l) = l := by
  have withId : 8 ≤ (setFragmentId (setFlag .f buf f) id).length := by
    rw [setFragmentId, length_writeAt_within (by simp; omega)]
    simpa using long
  have withOffset : 3 < (setFragmentOffset (setFragmentId (setFlag .f buf f) id) off).length := by
    simp only [setFragmentOffset, length_set]
    omega
  constructor
  · have third : byteAt (setFragmentOffset (setFragmentId (setFlag .f buf f) id) off) 3 =
        byteAt (setFlag .f buf f) 3 := by
      rw [byteAt_setFragmentOffset withId, if_neg (by omega), if_neg (by omega),
        byteAt_setFragmentId (by simp; omega) id (by omega)]
    rw [stamp, isFlag_f_setFlag_l withOffset, isFlag_congr .f third, isFlag_setFlag_self (by omega)]
  · rw [stamp, isFlag_setFlag_self withOffset]

theorem length_stampFragments (id : ℕ) (frags : List FragmentPacketItem) (off : ℕ) :
    (stampFragments id off frags).length = frags.length := by
  induction frags generalizing off with
  | nil => rfl
  | cons f rest ih =>
    rw [stampFragments]
    split
    case isTrue h => simp [h.2]
    case isFalse => simp [ih]

variable {frags : List FragmentPacketItem}

theorem stampFragments_flags (id : ℕ)
    (headers : ∀ f ∈ frags, 8 ≤ f.buffer.length) (off : ℕ) {i : ℕ} (inner : i + 1 < frags.length) :
    ∃ p, (stampFragments id off frags)[i]? = some p ∧ isFlag .f p.buffer = true ∧ isFlag .l p.buffer = false := by
  induction frags generalizing off i with
  | nil => simp at inner
  | cons f rest ih =>
    have some_rest : rest ≠ [] := by
      rintro rfl
      simp at inner
    rw [stampFragments, if_neg (fun h => some_rest h.2)]
    cases i with
    | zero =>
      refine ⟨_, rfl, ?_⟩
      have flags := isFlag_stamp (headers f (by simp)) true id off rest.isEmpty
      rwa [isEmpty_eq_false_iff.2 some_rest] at flags ⊢
    | succ i => exact ih (fun g mem => headers g (mem_cons_of_mem _ mem)) _ (by simpa using inner)

variable {rx rx' : PacketRxmng} {data : List UInt8}

theorem addRecvPacket_inner {result : RecvResult} (f : isFlag .f data = true) (l : isFlag .l data = false)
    (received : addRecvPacket rx data = some (result, rx')) : result ≠ .receiveCompletePacket := by
  rintro rfl
  simp only [addRecvPacket, f, l, if_true] at received
  split at received
  · simp at received
  split at received
  · simp at received
  split at received <;> simp at received

theorem receive_append (rx : PacketRxmng) (a b : List (List UInt8)) : receive rx (a ++ b) = (receive rx a).bind fun r =>
      (receive r.2 b).map fun r' => (r.1 ++ r'.1, r'.2) := by
  induction a generalizing rx with
  | nil => simp [receive]
  | cons data rest ih =>
    cases h : addRecvPacket rx data with
    | none => simp [receive, h]
    | some first =>
      cases h' : receive first.2 rest with
      | none => simp [receive, h, ih, h']
      | some last => cases h'' : receive last.2 b <;> simp [receive, h, ih, h', h'']

theorem receive_cons {rest : List (List UInt8)}
    {results : List RecvResult} (received : receive rx (data :: rest) = some (results, rx')) :
    ∃ result rx₁ later, addRecvPacket rx data = some (result, rx₁) ∧
      receive rx₁ rest = some (later, rx') ∧ results = result :: later := by
  obtain ⟨⟨result, rx₁⟩, first, received⟩ := bind_eq_some_iff.1 received
  obtain ⟨⟨later, rx₂⟩, second, e⟩ := bind_eq_some_iff.1 received
  cases e
  exact ⟨result, rx₁, later, first, second, rfl⟩

variable {packets : List (List UInt8)}

theorem length_receive {results : List RecvResult} (received : receive rx packets = some (results, rx')) :
    results.length = packets.length := by
  induction packets generalizing rx results with
  | nil =>
    cases received
    rfl
  | cons data rest ih =>
    obtain ⟨_, _, later, -, rest_received, rfl⟩ := receive_cons received
    rw [length_cons, length_cons, ih rest_received]

/-! ## Agreement -/

/-- An order of arrival, with repetitions, in which the last arrival brings the last of the `n` packets
that was missing. -/
def Arrives (n : ℕ) (order : List ℕ) : Prop :=
  (∀ i, i ∈ order ↔ i < n) ∧ ∃ init last, order = init ++ [last] ∧ last ∉ init

def arrivals (frags : List FragmentPacketItem) (id : ℕ) (order : List ℕ) : List (List UInt8) :=
  order.filterMap fun i => (getFragmentPackets frags id)[i]?.map FragmentPacketItem.buffer

/-- The receiver asks for more until the last arrival, then reports a packet from which the payloads can be read in
order. -/
def Reassembles (frags : List FragmentPacketItem) (id : ℕ) (order : List ℕ) : Prop :=
  ∃ rx, receive rxmngCreateMessage (arrivals frags id order) =
      some (List.replicate (order.length - 1) .requestMoreFragment ++ [.receiveCompletePacket], rx) ∧
    rx.body = some ((stream frags).drop controlMessageSize)

def Agrees (frags : List FragmentPacketItem) (id : ℕ) : Prop :=
  ∀ order, Arrives frags.length order → Reassembles frags id order

theorem Reassembles.last {id : ℕ} {init : List ℕ} {last : ℕ}
    (h : Reassembles frags id (init ++ [last])) {p : FragmentPacketItem}
    (packet : (getFragmentPackets frags id)[last]? = some p) :
    ∃ rx rx', addRecvPacket rx p.buffer = some (.receiveCompletePacket, rx') := by
  obtain ⟨rx', received, -⟩ := h
  have split : arrivals frags id (init ++ [last]) = arrivals frags id init ++ [p.buffer] := by
    simp [arrivals, packet]
  rw [split, receive_append, bind_eq_some_iff] at received
  obtain ⟨before, -, received⟩ := received
  cases h : addRecvPacket before.2 p.buffer with
  | none => simp [receive, h] at received
  | some r =>
    simp only [receive, h, bind, bind_some, map_some, some.injEq, Prod.mk.injEq] at received
    obtain ⟨same, rfl⟩ := received
    have := (append_inj' same rfl).2
    refine ⟨before.2, r.2, ?_⟩
    rw [h, ← (cons_eq_cons.1 this).1]

theorem not_agrees (two : 2 ≤ frags.length) (headers : ∀ f ∈ frags, 8 ≤ f.buffer.length) (id : ℕ) :
    ¬ Agrees frags id := by
  intro agrees
  have arrives : Arrives frags.length
      (((frags.length - 1) :: List.range (frags.length - 2)) ++ [frags.length - 2]) := by
    refine ⟨fun i => ?_, _, _, rfl, ?_⟩
    · simp
      omega
    · simp
      omega
  obtain ⟨p, packet, f, l⟩ := stampFragments_flags id headers 0 (i := frags.length - 2) (by omega)
  obtain ⟨rx, rx', received⟩ := (agrees _ arrives).last packet
  exact addRecvPacket_inner f l received rfl

/-- The fragments as the writer leaves them when the last payload is a multiple of eight bytes too: only the first
header is longer than eight bytes. -/
structure AsWritten (reserved : ℕ) (frags : List FragmentPacketItem) : Prop where
  headers : ∀ f ∈ frags, 8 ≤ f.buffer.length
  later : ∀ f ∈ frags.tail, getHlen f.buffer = 2
  payloads : ∀ f ∈ frags, f.payload.length % 8 = 0
  same : ∀ f ∈ frags, byteAt f.buffer 6 % 8 = reserved

theorem getFragmentOffset_stamp (long : 8 ≤ buf.length) (f : Bool) (id : ℕ) {off : ℕ} (small : off < 8) (l : Bool) :
    getFragmentOffset (stamp buf f id off l) = byteAt buf 6 % 8 * 256 := by
  have mask : maskOffset off = 0 := by
    simp only [maskOffset]
    omega
  have withId : 8 ≤ (setFragmentId (setFlag .f buf f) id).length := by
    rw [setFragmentId, length_writeAt_within (by simp; omega)]
    simpa using long
  have flag (i : ℕ) (other : i ≠ 3) (b : List UInt8) (h : 3 < b.length) (x : Flag) (on : Bool) :
      byteAt (setFlag x b on) i = byteAt b i := by
    rw [setFlag, byteAt_set h, if_neg other]
  have field (i : ℕ) (ge : 6 ≤ i) :
      byteAt (stamp buf f id off l) i = if i = 7 then 0 else if i = 6 then byteAt buf 6 % 8 else byteAt buf i := by
    rw [stamp, flag i (by omega) _ (by simp only [setFragmentOffset, length_set]; omega),
      byteAt_setFragmentOffset withId, byteAt_setFragmentId (by simp; omega) id (by omega),
      byteAt_setFragmentId (by simp; omega) id (by omega), flag i (by omega) _ (by omega),
      flag 6 (by omega) _ (by omega), mask]
    simp only [Nat.zero_mod, Nat.zero_div, Nat.or_zero]
    split_ifs <;> omega
  have six : byteAt (stamp buf f id off l) 6 = byteAt buf 6 % 8 := field 6 le_rfl
  have seven : byteAt (stamp buf f id off l) (6 + 1) = 0 := field 7 (by omega)
  simp only [getFragmentOffset, readBe16, six, seven, maskOffset]
  omega

theorem stampFragments_offset (id : ℕ) {reserved : ℕ}
    (headers : ∀ f ∈ frags, 8 ≤ f.buffer.length) (later : ∀ f ∈ frags.tail, f.offset % 8 = 0)
    (same : ∀ f ∈ frags, byteAt f.buffer 6 % 8 = reserved) {off : ℕ} (small : off < 8)
    (start : off ≠ 0 → ∀ f ∈ frags, f.offset % 8 = 0) : ∀ p ∈ stampFragments id off frags,
      isFlag .f p.buffer = true → getFragmentOffset p.buffer = reserved * 256 := by
  induction frags generalizing off with
  | nil => exact nofun
  | cons f rest ih =>
    have long := headers f (by simp)
    rw [stampFragments]
    split
    · refine forall_mem_singleton.2 fun flag => absurd flag ?_
      rw [(isFlag_stamp long false 0 0 false).1]
      decide
    · have even : ∀ g ∈ rest, g.offset % 8 = 0 := later
      have small' : (off + f.offset % 8) % 65536 < 8 := by
        rcases Nat.eq_zero_or_pos off with rfl | positive
        · omega
        · have := start positive.ne' f (by simp)
          omega
      refine forall_mem_cons.2 ⟨fun _ => ?_, ih (fun g mem => headers g (mem_cons_of_mem _ mem))
        (fun g mem => even g (mem_of_mem_tail mem)) (fun g mem => same g (mem_cons_of_mem _ mem)) small' fun _ => even⟩
      rw [getFragmentOffset_stamp long _ _ small, same f (by simp)]

theorem addRecvPacket_first (empty : rx.fragmentlist = [])
    (received : addRecvPacket rx data = some (.requestMoreFragment, rx')) :
    isFlag .f data = true ∧ rx'.fragmentlist = [data] := by
  unfold addRecvPacket at received
  split at received
  case isFalse => simp [empty] at received
  case isTrue f =>
    refine ⟨f, ?_⟩
    simp only [empty, orderFragment, ne_eq, not_true_eq_false, false_and, if_false] at received
    split at received
    · simp at received
    split at received
    · split at received
      · obtain rfl : _ = rx' := by simpa using received
        rfl
      · simp at received
      · simp at received
    · obtain rfl : _ = rx' := by simpa using received
      rfl

theorem addRecvPacket_again {first data : List UInt8} (one : rx.fragmentlist = [first]) {result : RecvResult}
    (aligned : isFlag .f data = true → getFragmentOffset data = getFragmentOffset first)
    (received : addRecvPacket rx data = some (result, rx')) (fine : result ≠ .wrongFragment) :
    data = first ∧ (result = .requestMoreFragment → rx'.fragmentlist = [first]) := by
  unfold addRecvPacket at received
  split at received
  case isFalse =>
    rw [if_pos (by simp [one])] at received
    obtain ⟨rfl, -⟩ : RecvResult.wrongFragment = result ∧ rx = rx' := by simpa using received
    exact absurd rfl fine
  case isTrue f =>
    have order : orderFragment rx.fragmentlist data = if first ≠ data then none else some [first] := by
      simp only [one, orderFragment, aligned f, lt_irrefl, if_false, false_and]
      by_cases same : first = data <;> simp [same]
    have wrong : some (RecvResult.wrongFragment, rx) ≠ some (result, rx') := by
      intro e
      exact fine (Prod.mk.inj (some.inj e)).1.symm
    split at received
    · exact absurd received wrong
    split at received
    · exact absurd received wrong
    by_cases same : first = data
    · subst same
      simp only [order, ne_eq, not_true_eq_false, if_false] at received
      refine ⟨rfl, ?_⟩
      rintro rfl
      split at received
      · split at received
        · obtain rfl : _ = rx' := by simpa using received
          rfl
        · simp at received
        · simp at received
      · obtain rfl : _ = rx' := by simpa using received
        rfl
    · rw [order, if_pos same] at received
      exact absurd received wrong

theorem receive_copies {first : List UInt8}
    (aligned : ∀ data ∈ packets, isFlag .f data = true → getFragmentOffset data = getFragmentOffset first)
    (one : rx.fragmentlist = [first]) {n : ℕ}
    (received : receive rx packets = some (List.replicate n .requestMoreFragment ++ [.receiveCompletePacket], rx')) :
    ∀ data ∈ packets, data = first := by
  induction packets generalizing rx n with
  | nil => simp
  | cons data rest ih =>
    obtain ⟨result, rx₁, later, step, rest_received, results⟩ := receive_cons received
    cases n with
    | zero =>
      cases results
      obtain ⟨copy, -⟩ := addRecvPacket_again one (aligned data (by simp)) step (by decide)
      have none := length_eq_zero_iff.1 (length_receive rest_received).symm
      simp [none, copy]
    | succ n =>
      cases results
      obtain ⟨copy, kept⟩ := addRecvPacket_again one (aligned data (by simp)) step (by decide)
      intro packet mem
      rcases mem_cons.1 mem with rfl | later
      · exact copy
      · exact ih (fun d h => aligned d (mem_cons_of_mem _ h)) (kept rfl) rest_received packet later

theorem receive_fresh_copies {offset : ℕ}
    (aligned : ∀ data ∈ packets, isFlag .f data = true → getFragmentOffset data = offset)
    (empty : rx.fragmentlist = []) {n : ℕ}
    (received : receive rx packets = some (List.replicate n .requestMoreFragment ++ [.receiveCompletePacket], rx')) :
    ∃ first, ∀ data ∈ packets, data = first := by
  cases packets with
  | nil => exact ⟨[], by simp⟩
  | cons data rest =>
    obtain ⟨result, rx₁, later, step, rest_received, results⟩ := receive_cons received
    refine ⟨data, ?_⟩
    cases n with
    | zero =>
      cases results
      have none := length_eq_zero_iff.1 (length_receive rest_received).symm
      simp [none]
    | succ n =>
      cases results
      obtain ⟨f, one⟩ := addRecvPacket_first empty step
      have same : ∀ d ∈ rest, isFlag .f d = true → getFragmentOffset d = getFragmentOffset data :=
        fun d mem fd => (aligned d (mem_cons_of_mem _ mem) fd).trans (aligned data (by simp) f).symm
      simpa using receive_copies same one rest_received

/-- For fragments as the writer leaves them, no order of arrival makes the receiver ask for more until
the message is complete. -/
theorem AsWritten.not_reassembles {reserved : ℕ}
    (h : AsWritten reserved frags) (two : 2 ≤ frags.length) (id : ℕ) {order : List ℕ}
    (arrives : Arrives frags.length order) : ¬ Reassembles frags id order := by
  intro reassembles
  obtain ⟨all, init, last, rfl, -⟩ := arrives
  have lt : last < frags.length := (all last).1 (by simp)
  obtain ⟨q, at_last⟩ : ∃ q, (getFragmentPackets frags id)[last]? = some q :=
    ⟨_, getElem?_eq_getElem (by rwa [getFragmentPackets, length_stampFragments])⟩
  obtain ⟨p, at_first, f, l⟩ := stampFragments_flags id h.headers 0 (i := 0) two
  obtain ⟨_, _, completed⟩ := reassembles.last at_last
  obtain ⟨rx, received, -⟩ := reassembles
  have aligned : ∀ data ∈ arrivals frags id (init ++ [last]),
      isFlag .f data = true → getFragmentOffset data = reserved * 256 := by
    intro data mem
    obtain ⟨i, -, e⟩ := mem_filterMap.1 mem
    obtain ⟨p, at_i, rfl⟩ := map_eq_some_iff.1 e
    refine stampFragments_offset id h.headers (fun f mem => ?_) h.same (by omega) (by simp) p (mem_of_getElem? at_i)
    have long := h.headers f (mem_of_mem_tail mem)
    have eight := h.payloads f (mem_of_mem_tail mem)
    simp only [FragmentPacketItem.payload, h.later f mem, length_drop] at eight
    simp only [FragmentPacketItem.offset]
    omega
  -- all packets are copies of the one that arrives first, and the first packet is not the last fragment
  obtain ⟨first, copies⟩ := receive_fresh_copies aligned rfl received
  have mem (i : ℕ) (lt : i < frags.length) (p : FragmentPacketItem)
      (e : (getFragmentPackets frags id)[i]? = some p) : p.buffer ∈ arrivals frags id (init ++ [last]) :=
    mem_filterMap.2 ⟨i, (all i).2 lt, by rw [e]; rfl⟩
  have equal : q.buffer = p.buffer :=
    (copies _ (mem _ lt _ at_last)).trans (copies _ (mem 0 (by omega) _ at_first)).symm
  exact addRecvPacket_inner f l (equal ▸ completed) rfl

/-- There is an order of arrival in which two or more fragments are not reassembled; for fragments as the writer
leaves them, no order works. -/
theorem fragments_never_agree {frags : List FragmentPacketItem} (two : 2 ≤ frags.length)
    (headers : ∀ f ∈ frags, 8 ≤ f.buffer.length) (id : ℕ) : ¬ Agrees frags id ∧ ∀ reserved, AsWritten reserved frags →
        ∀ order, Arrives frags.length order → ¬ Reassembles frags id order :=
  ⟨not_agrees two headers id, fun _ written _ arrives => written.not_reassembles two id arrives⟩

def twoFragments : List FragmentPacketItem :=
  [⟨24, (headerInit 1 1).headerbuffer ++ controlMessage 25 7 11⟩,
    ⟨24, (headerInit 1 1).headerbuffer ++ [1, 2, 3, 4, 5, 6, 7, 8]⟩]

theorem arrives_two : Arrives twoFragments.length [0, 1] := by
  refine ⟨fun i => ?_, [0], 1, rfl, by decide⟩
  simp [twoFragments]
  omega

theorem fragments_never_agree_two : AsWritten 0 twoFragments ∧ Arrives twoFragments.length [0, 1] ∧
    ¬ Agrees twoFragments 3 ∧
      ¬ Reassembles twoFragments 3 [0, 1] := by
  have written : AsWritten 0 twoFragments := ⟨by decide, by decide, by decide, by decide⟩
  have length : 2 ≤ twoFragments.length := by decide
  obtain ⟨disagree, none⟩ := fragments_never_agree length (by decide) 3
  exact ⟨written, arrives_two, disagree, none 0 written [0, 1] arrives_two⟩

/-- Received in the sender's order, the second fragment is refused: it was stamped as a whole packet. -/
theorem receive_second_wrong : (receive rxmngCreateMessage (arrivals twoFragments 3 [0, 1])).map Prod.fst =
        some [.requestMoreFragment, .wrongFragment] ∧ ¬ Agrees twoFragments 3 := by
  have results : (receive rxmngCreateMessage (arrivals twoFragments 3 [0, 1])).map Prod.fst =
      some [.requestMoreFragment, .wrongFragment] := by decide
  refine ⟨results, fun agrees => ?_⟩
  obtain ⟨rx, received, -⟩ := agrees [0, 1] arrives_two
  rw [received] at results
  have wrong : [RecvResult.requestMoreFragment, .receiveCompletePacket] =
      [.requestMoreFragment, .wrongFragment] := some.inj results
  exact absurd wrong (by decide)

/-! ## Messages of one fragment -/

/-- The position lies in a packet that is the only one, or behind it. -/
def InSingle (r : ReadBlockFromPos) : Prop := r.item = [] ∨ ∃ item, r.item = [item] ∧ r.pos ≤ item.length

theorem InSingle.readLoop {r : ReadBlockFromPos} (inside : InSingle r) (n : ℕ) :
    ∃ bytes r', readLoop n r.item r.pos = some (bytes, r') ∧ InSingle r' := by
  rcases inside with empty | ⟨item, single, le⟩
  · exact ⟨_, _, by rw [empty, CapwapProtocol.readLoop], .inl rfl⟩
  · rw [single]
    cases n with
    | zero => exact ⟨_, _, rfl, .inr ⟨item, rfl, le⟩⟩
    | succ n =>
      simp only [CapwapProtocol.readLoop, if_neg (not_lt.2 le)]
      split
      · exact ⟨_, _, rfl, .inl rfl⟩
      · exact ⟨_, _, rfl, .inr ⟨item, rfl, by simp only; omega⟩⟩

theorem InSingle.isSome_bind {f : Option ℕ × PacketRxmng → Option PacketRxmng} (inside : InSingle rx.readpos) (n : ℕ)
    (rest : ∀ x rx', InSingle rx'.readpos → (f (x, rx')).isSome) : ((rx.readNumber n).bind f).isSome := by
  obtain ⟨bytes, r, read, inside'⟩ :=
    inside.readLoop (if 0 < rx.readerpacketallowed then min n rx.readerpacketallowed else n)
  rw [readNumber, readBlock, readBlockFromPos, read]
  exact rest _ _ inside'

theorem isSome_complete (one : rx.fragmentlist = [data]) (le : getHlen data * 4 ≤ data.length) :
    rx.complete.isSome := by
  refine InSingle.isSome_bind (.inr ⟨data, one, by rw [one]; exact le⟩) 4 fun _ rx₁ in₁ => ?_
  refine InSingle.isSome_bind (by exact in₁) 1 fun _ rx₂ in₂ => ?_
  refine InSingle.isSome_bind (by exact in₂) 2 fun _ rx₃ in₃ => ?_
  exact InSingle.isSome_bind (by exact in₃) 1 fun _ _ _ => rfl

theorem addRecvPacket_single (whole : isFlag .f data = false) (le : getHlen data * 4 ≤ data.length) :
    ∃ rx, addRecvPacket rxmngCreateMessage data = some (.receiveCompletePacket, rx) := by
  have done : (complete { rxmngCreateMessage with
      fragmentlist := [data], packetlength := data.length - getHlen data * 4 }).isSome := isSome_complete rfl le
  obtain ⟨rx, done⟩ := isSome_iff_exists.1 done
  rw [addRecvPacket, whole, if_neg (by decide), if_neg (by simp [rxmngCreateMessage]), done]
  exact ⟨rx, rfl⟩

theorem getHlen_stamp (long : 8 ≤ buf.length) (f : Bool) (id off : ℕ) (l : Bool) :
    getHlen (stamp buf f id off l) = getHlen buf := by
  have inside : 4 ≤ (setFlag .f buf f).length := by
    rw [length_setFlag]
    omega
  refine getHlen_congr ?_
  rw [stamp, setFlag, getElem?_set_ne (by omega), setFragmentOffset, getElem?_set_ne (by omega),
    getElem?_set_ne (by omega),
    setFragmentId, getElem?_writeAt inside, if_neg (by simp), setFlag, getElem?_set_ne (by omega)]

theorem Written.isSome_rebuild (written : Written frags) {id : ℕ} (one : (getFragmentPackets frags id).length = 1) :
    (createFromRequestFragmentPacket (getFragmentPackets frags id)).isSome := by
  obtain ⟨first, rest, rfl, two, fits⟩ := written
  have length : (getFragmentPackets (first :: rest) id).length = rest.length + 1 :=
    length_stampFragments id (first :: rest) 0
  obtain rfl : rest = [] := length_eq_zero_iff.1 (by omega)
  have long : 8 ≤ first.buffer.length := by omega
  have inside : getHlen (stamp first.buffer false 0 0 false) * 4 ≤ (stamp first.buffer false 0 0 false).length := by
    rw [getHlen_stamp long, length_stamp long]
    omega
  obtain ⟨rx, received⟩ := addRecvPacket_single (isFlag_stamp long false 0 0 false).1 inside
  simp [createFromRequestFragmentPacket, getFragmentPackets, stampFragments, rebuildLoop, received]

end OpenWifi.CapwapProtocol
