import OpenWifi.CapwapProtocol.Header

/-!
# Sending data packets

`sc_capwap_forwarddata` of `kmod/capwap.c`.  A packet that does not fit into the MTU is sent in fragments.
-/

namespace OpenWifi.Kmod

open List CapwapProtocol

/-- The arguments of `sc_capwap_forwarddata` other than the packet, with the two optional blocks of the header. -/
structure Outgoing where
  mtu : ℕ
  radioid : ℕ
  binding : ℕ
  tunnel8023 : Bool
  radioaddr : Option (List UInt8)
  winfo : Option (List UInt8)
  deriving DecidableEq

/-- The eight bytes of `struct sc_capwap_header`, little-endian. -/
def headerBytes (out : Outgoing) (hlen : ℕ) (f l w m : Bool) (fragId fragOff : ℕ) : List UInt8 :=
  [0, UInt8.ofNat (out.radioid / 4 % 8 + hlen % 32 * 8),
    UInt8.ofNat ((if out.tunnel8023 then 0 else 1) + out.binding % 32 * 2 + out.radioid % 4 * 64),
    UInt8.ofNat ((if m then 16 else 0) + (if w then 32 else 0) + (if l then 64 else 0) +
      if f then 128 else 0)] ++ be16 fragId ++ be16 fragOff

namespace Outgoing

variable (out : Outgoing)

def options : List UInt8 := out.radioaddr.getD [] ++ out.winfo.getD []

def reserve : ℕ := headerSize + out.options.length

/-- The header of one packet.  Only the first one has the optional blocks; `fragment` is the fragment id. -/
def header (fragment : Option ℕ) (fragmentoffset : ℕ) (last : Bool) : List UInt8 :=
  let first := fragmentoffset == 0
  headerBytes out ((if first then out.reserve else headerSize) / 4) fragment.isSome
      (fragment.isSome && last) (first && out.winfo.isSome) (first && out.radioaddr.isSome)
      (fragment.getD 0) (if fragment.isSome then fragmentoffset % 65536 else 0) ++
    if first then out.options else []

def size (fragmentoffset : ℕ) : ℕ := if fragmentoffset = 0 then out.reserve else headerSize

/-- The loop of `sc_capwap_forwarddata`: the packets that are sent and the length that is left.  `none` when the loop
does not end within the fuel, or when the MTU is smaller than the header. -/
def forwardLoop (out : Outgoing) (fragment : Option ℕ) (send : ℕ → Bool) :
    ℕ → ℕ → List UInt8 → ℕ → ℕ → ℕ → Option (List (List UInt8) × ℕ)
  | _, _, _, _, _, 0 => some ([], 0)
  | 0, _, _, _, _, _ + 1 => none
  | fuel + 1, n, buffer, pos, fragmentoffset, packetlength + 1 =>
    let size := out.size fragmentoffset
    if out.mtu < size then none
    else
      let room := out.mtu - size
      if room < packetlength + 1 ∧ fragment = none then some ([], packetlength + 1)
      else
        let length := if packetlength + 1 ≤ room then packetlength + 1 else room - room % 8
        let buffer := writeAt buffer pos (out.header fragment fragmentoffset (packetlength + 1 == length))
        if send n then
          (forwardLoop out fragment send fuel (n + 1) buffer (pos + size + length - headerSize)
            (fragmentoffset + length) (packetlength + 1 - length)).map fun r =>
              ((buffer.drop pos).take (size + length) :: r.1, r.2)
        else some ([], packetlength + 1)

def requestfragment (packet : List UInt8) : Bool := out.mtu < packet.length + out.reserve

/-- The result of `sc_capwap_forwarddata`: the packets that are sent, whether all of it was sent, and the
next fragment id of the session. -/
structure Forwarded where
  packets : List (List UInt8)
  ok : Bool
  fragmentid : ℕ
  deriving DecidableEq

/-- `sc_capwap_forwarddata`; `fragmentid` is the counter of the session. -/
def forwarddata (fragmentid : ℕ) (send : ℕ → Bool) (packet : List UInt8) : Option Forwarded :=
  let fragment := if out.requestfragment packet then some fragmentid else none
  (forwardLoop out fragment send packet.length 0 (List.replicate out.reserve 0 ++ packet) 0 0
    packet.length).map fun r =>
      { packets := r.1
        ok := r.2 == 0
        fragmentid := if out.requestfragment packet then (fragmentid + 1) % 65536 else fragmentid }

end Outgoing

/-! ## Headers -/

@[simp] theorem length_headerBytes (out : Outgoing) (hlen : ℕ) (f l w m : Bool) (fragId fragOff : ℕ) :
    (headerBytes out hlen f l w m fragId fragOff).length = headerSize := rfl

theorem getHlen_headerBytes (out : Outgoing) {hlen : ℕ} (small : hlen < 32) (f l w m : Bool)
    (fragId fragOff : ℕ)
    (rest : List UInt8) : getHlen (headerBytes out hlen f l w m fragId fragOff ++ rest) = hlen := by
  simp only [getHlen, byteAt, headerBytes, cons_append, getD_cons_succ, getD_cons_zero, UInt8.toNat_ofNat']
  omega

theorem isFlag_f_headerBytes (out : Outgoing) (hlen : ℕ) (f l w m : Bool) (fragId fragOff : ℕ)
    (rest : List UInt8) : isFlag .f (headerBytes out hlen f l w m fragId fragOff ++ rest) = f := by
  simp only [isFlag, byteAt, headerBytes, cons_append, getD_cons_succ, getD_cons_zero, UInt8.toNat_ofNat', Flag.bit]
  cases f <;> cases l <;> cases w <;> cases m <;> rfl

theorem isFlag_l_headerBytes (out : Outgoing) (hlen : ℕ) (f l w m : Bool) (fragId fragOff : ℕ)
    (rest : List UInt8) : isFlag .l (headerBytes out hlen f l w m fragId fragOff ++ rest) = l := by
  simp only [isFlag, byteAt, headerBytes, cons_append, getD_cons_succ, getD_cons_zero, UInt8.toNat_ofNat', Flag.bit]
  cases f <;> cases l <;> cases w <;> cases m <;> rfl

theorem readBe16_be16 {n : ℕ} (small : n < 65536) (front rest : List UInt8) :
    readBe16 (front ++ be16 n ++ rest) front.length = n := by
  simp [readBe16, byteAt, be16, UInt8.toNat_ofNat']
  omega

theorem fragId_headerBytes (out : Outgoing) (hlen : ℕ) (f l w m : Bool) {fragId : ℕ}
    (small : fragId < 65536) (fragOff : ℕ) (rest : List UInt8) :
    readBe16 (headerBytes out hlen f l w m fragId fragOff ++ rest) 4 = fragId := by
  rw [headerBytes, append_assoc]
  exact readBe16_be16 small _ _

theorem fragOff_headerBytes (out : Outgoing) (hlen : ℕ) (f l w m : Bool) (fragId : ℕ) {fragOff : ℕ}
    (small : fragOff < 65536) (rest : List UInt8) :
    readBe16 (headerBytes out hlen f l w m fragId fragOff ++ rest) 6 = fragOff := by
  rw [headerBytes]
  exact readBe16_be16 small _ _

namespace Outgoing

variable (out : Outgoing)

theorem length_header (fragment : Option ℕ) (fragmentoffset : ℕ) (last : Bool) :
    (out.header fragment fragmentoffset last).length = out.size fragmentoffset := by
  by_cases first : fragmentoffset = 0 <;> simp [header, size, first, reserve]

/-! ## The packets that are sent -/

def chunk (fragmentoffset packetlength : ℕ) : ℕ :=
  let room := out.mtu - out.size fragmentoffset
  if packetlength ≤ room then packetlength else room - room % 8

def pieces (fragment : Option ℕ) : ℕ → ℕ → List UInt8 → List (List UInt8)
  | 0, _, _ => []
  | fuel + 1, fragmentoffset, packet =>
    if packet = [] then []
    else
      let length := out.chunk fragmentoffset packet.length
      (out.header fragment fragmentoffset (packet.length == length) ++ packet.take length) ::
        pieces fragment fuel (fragmentoffset + length) (packet.drop length)

variable {out}

theorem chunk_le (fragmentoffset packetlength : ℕ) : out.chunk fragmentoffset packetlength ≤ packetlength := by
  unfold chunk
  dsimp only
  split
  · exact le_rfl
  · omega

theorem size_le_reserve (fragmentoffset : ℕ) : out.size fragmentoffset ≤ out.reserve := by
  unfold size reserve
  split
  · exact le_rfl
  · omega

theorem chunk_pos (room : out.reserve + 8 ≤ out.mtu) (fragmentoffset : ℕ) {packetlength : ℕ}
    (pos : 0 < packetlength) : 0 < out.chunk fragmentoffset packetlength := by
  have := out.size_le_reserve fragmentoffset
  unfold chunk
  dsimp only
  split
  · exact pos
  · omega

variable {send : ℕ → Bool}

theorem forwardLoop_succ {fragment : Option ℕ} {fuel n : ℕ} {buffer : List UInt8}
    {pos fragmentoffset packetlength : ℕ} (sends : send n = true) (left : 0 < packetlength)
    (sizeLe : out.size fragmentoffset ≤ out.mtu)
    (unfragmented : fragment = none → packetlength ≤ out.mtu - out.size fragmentoffset)
    {length : ℕ} (chunk : out.chunk fragmentoffset packetlength = length) {header : List UInt8}
    (headerEq : out.header fragment fragmentoffset (packetlength == length) = header) :
    out.forwardLoop fragment send (fuel + 1) n buffer pos fragmentoffset packetlength =
      (out.forwardLoop fragment send fuel (n + 1) (writeAt buffer pos header)
        (pos + out.size fragmentoffset + length - headerSize) (fragmentoffset + length)
        (packetlength - length)).map fun r =>
          (((writeAt buffer pos header).drop pos).take (out.size fragmentoffset + length) :: r.1, r.2) := by
  obtain ⟨k, rfl⟩ : ∃ k, packetlength = k + 1 := ⟨packetlength - 1, by omega⟩
  have goes : ¬ (out.mtu - out.size fragmentoffset < k + 1 ∧ fragment = none) := by
    rintro ⟨lt, none⟩
    exact absurd (unfragmented none) (by omega)
  subst headerEq chunk
  simp only [forwardLoop, if_neg (not_lt.2 sizeLe), if_neg goes, sends, if_true]
  rfl

theorem forwardLoop_eq (room : out.reserve + 8 ≤ out.mtu) {fragment : Option ℕ}
    (sends : ∀ n, send n = true) {fuel n : ℕ} {buffer packet : List UInt8} {pos fragmentoffset : ℕ}
    (enough : packet.length ≤ fuel) (unfragmented : fragment = none → packet.length ≤ out.mtu - out.size fragmentoffset)
    (start : pos + out.size fragmentoffset ≤ buffer.length)
    (left : buffer.drop (pos + out.size fragmentoffset) = packet) :
    out.forwardLoop fragment send fuel n buffer pos fragmentoffset packet.length =
      some (out.pieces fragment fuel fragmentoffset packet, 0) := by
  induction fuel generalizing n buffer packet pos fragmentoffset with
  | zero =>
    obtain rfl : packet = [] := eq_nil_of_length_eq_zero (by omega)
    rfl
  | succ fuel ih =>
    by_cases empty : packet = []
    · subst empty
      simp [forwardLoop, pieces]
    have lengthPos : 0 < packet.length := length_pos_iff.2 empty
    have sizeLe := out.size_le_reserve fragmentoffset
    have headerLe : headerSize ≤ out.size fragmentoffset := by
      unfold size reserve
      split <;> omega
    have chunkLe := out.chunk_le fragmentoffset packet.length
    have chunkPos := chunk_pos room fragmentoffset lengthPos
    have bufferLen : buffer.length = pos + out.size fragmentoffset + packet.length := by
      rw [← left, length_drop]
      omega
    rw [pieces, if_neg empty]
    dsimp only
    generalize chunkEq : out.chunk fragmentoffset packet.length = length at *
    generalize headerEq : out.header fragment fragmentoffset (packet.length == length) = header
    have headerLen : header.length = out.size fragmentoffset := by
      rw [← headerEq, length_header]
    have later : out.size (fragmentoffset + length) = headerSize := by
      rw [size, if_neg (by omega)]
    -- the header of the next packet is right before what is left
    have next : pos + out.size fragmentoffset + length - headerSize + out.size (fragmentoffset + length) =
        pos + out.size fragmentoffset + length := by
      rw [later]
      omega
    have kept : (writeAt buffer pos header).drop (pos + out.size fragmentoffset) = packet := by
      rw [drop_writeAt_before (by omega) start, left]
    rw [forwardLoop_succ (sends n) lengthPos (by omega) unfragmented chunkEq headerEq, ← length_drop, ih]
    · rw [Option.map_some]
      congr 3
      rw [take_add, drop_drop, kept]
      congr 1
      rw [drop_writeAt le_rfl (by omega), Nat.sub_self, writeAt, take_zero, nil_append, ← headerLen, take_left]
    · rw [length_drop]
      omega
    · intro none
      have all : length = packet.length := by
        rw [← chunkEq, chunk]
        exact if_pos (unfragmented none)
      simp [all]
    · rw [next, length_writeAt_within (by omega)]
      omega
    · rw [next, ← drop_drop, kept]

theorem forwarddata_eq (room : out.reserve + 8 ≤ out.mtu) (sends : ∀ n, send n = true)
    (fragmentid : ℕ) (packet : List UInt8) :
    ∃ forwarded, out.forwarddata fragmentid send packet = some forwarded ∧ forwarded.ok = true ∧
      forwarded.packets = out.pieces (if out.requestfragment packet then some fragmentid else none)
        packet.length 0 packet := by
  have size : out.size 0 = out.reserve := if_pos rfl
  have whole : out.forwardLoop (if out.requestfragment packet then some fragmentid else none) send
      packet.length 0 (List.replicate out.reserve 0 ++ packet) 0 0 packet.length =
        some (out.pieces (if out.requestfragment packet then some fragmentid else none) packet.length 0 packet,
          0) := by
    refine forwardLoop_eq room sends le_rfl (fun none => ?_) ?_ ?_
    · have short : ¬ out.mtu < packet.length + out.reserve := by
        intro long
        simp [requestfragment, long] at none
      rw [size]
      omega
    · simp [size]
    · rw [size, Nat.zero_add, drop_left' (length_replicate ..)]
  rw [forwarddata, whole]
  exact ⟨_, rfl, rfl, rfl⟩

end Outgoing

end OpenWifi.Kmod
