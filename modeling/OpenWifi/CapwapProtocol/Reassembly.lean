import OpenWifi.CapwapProtocol.Writer

/-!
# Stamping and reassembling fragments

The sender's `capwap_packet_txmng_get_fragment_packets`, which marks the fragments of a message, and the receiver of
`capwap_protocol.c`, which collects them in a list and reads the message from it.
-/

namespace OpenWifi.CapwapProtocol

def stamp (buf : List UInt8) (f : Bool) (id off : ℕ) (l : Bool) : List UInt8 :=
  setFlag .l (setFragmentOffset (setFragmentId (setFlag .f buf f) id) off) l

/-- The loop of `capwap_packet_txmng_get_fragment_packets`.  The offset grows by the *remainder* of the length modulo
eight, and the last fragment is marked as a whole packet whenever it is zero. -/
def stampFragments (fragmentid : ℕ) : ℕ → List FragmentPacketItem → List FragmentPacketItem
  | _, [] => []
  | fragmentoffset, f :: rest =>
    if fragmentoffset = 0 ∧ rest = [] then
      [{ f with buffer := stamp f.buffer false 0 0 false }]
    else
      { f with buffer := stamp f.buffer true fragmentid fragmentoffset rest.isEmpty } ::
        stampFragments fragmentid ((fragmentoffset + f.offset % 8) % 65536) rest

/-- `capwap_packet_txmng_get_fragment_packets`. -/
def getFragmentPackets (fragmentlist : List FragmentPacketItem) (fragmentid : ℕ) : List FragmentPacketItem :=
  stampFragments fragmentid 0 fragmentlist

/-- `struct read_block_from_pos`: the fragments from the current one on, and the position in it. -/
structure ReadBlockFromPos where
  item : List (List UInt8)
  pos : ℕ
  deriving DecidableEq

/-- The loop of `capwap_fragment_read_block_from_pos`.  `none` when the position lies behind the end of its fragment. -/
def readLoop : ℕ → List (List UInt8) → ℕ → Option (List UInt8 × ReadBlockFromPos)
  | _, [], pos => some ([], ⟨[], pos⟩)
  | 0, item :: rest, pos => some ([], ⟨item :: rest, pos⟩)
  | readdataleft + 1, item :: rest, pos =>
    if item.length < pos then none
    else
      let copylength := min (item.length - pos) (readdataleft + 1)
      let bytes := (item.drop pos).take copylength
      if pos + copylength = item.length then
        match rest with
        | [] => some (bytes, ⟨[], 0⟩)
        | next :: _ =>
          (readLoop (readdataleft + 1 - copylength) rest (getHlen next * 4)).map fun r => (bytes ++ r.1, r.2)
      else some (bytes, ⟨item :: rest, pos + copylength⟩)

/-- `capwap_fragment_read_block_from_pos`. -/
def readBlockFromPos (length : ℕ) (readpos : ReadBlockFromPos) (lengthallowed : ℕ) :
    Option (List UInt8 × ReadBlockFromPos) :=
  readLoop (if 0 < lengthallowed then min length lengthallowed else length) readpos.item readpos.pos

/-! ## The receiver -/

/-- `struct capwap_control_message`, as read from a packet. -/
structure ControlMessage where
  type : ℕ
  seq : ℕ
  length : ℕ
  flags : ℕ
  deriving DecidableEq

/-- `struct capwap_packet_rxmng`. -/
structure PacketRxmng where
  fragmentlist : List (List UInt8)
  packetlength : ℕ
  ctrlmsg : ControlMessage
  readpos : ReadBlockFromPos
  readbodypos : ReadBlockFromPos
  readerpacketallowed : ℕ
  deriving DecidableEq

/-- `capwap_packet_rxmng_create_message`. -/
def rxmngCreateMessage : PacketRxmng :=
  ⟨[], 0, ⟨0, 0, 0, 0⟩, ⟨[], 0⟩, ⟨[], 0⟩, 0⟩

namespace PacketRxmng

variable (rx : PacketRxmng)

/-- `capwap_fragment_read_block`. -/
def readBlock (length : ℕ) : Option (List UInt8 × PacketRxmng) :=
  (readBlockFromPos length rx.readpos rx.readerpacketallowed).map fun r =>
    (r.1, { rx with
      readpos := r.2
      readerpacketallowed := (rx.readerpacketallowed + 65536 - r.1.length) % 65536 })

def networkNumber (bytes : List UInt8) : ℕ := bytes.foldl (fun n b => n * 256 + b.toNat) 0

/-- `capwap_fragment_read_u8`, `_u16` and `_u32`; `none` when there are not enough bytes. -/
def readNumber (size : ℕ) : Option (Option ℕ × PacketRxmng) :=
  (rx.readBlock size).map fun r => (if r.1.length ≠ size then none else some (networkNumber r.1), r.2)

/-- `capwap_packet_rxmng_complete`: the control message is read from the first fragments. -/
def complete : Option PacketRxmng := do
  let rx := { rx with
    readpos := ⟨rx.fragmentlist, getHlen (rx.fragmentlist.headD []) * 4⟩
    readerpacketallowed := controlMessageSize }
  let (type, rx) ← rx.readNumber 4
  let rx := { rx with ctrlmsg := { rx.ctrlmsg with type := type.getD rx.ctrlmsg.type } }
  let (seq, rx) ← rx.readNumber 1
  let rx := { rx with ctrlmsg := { rx.ctrlmsg with seq := seq.getD rx.ctrlmsg.seq } }
  let (length, rx) ← rx.readNumber 2
  let rx := { rx with ctrlmsg := { rx.ctrlmsg with length := length.getD rx.ctrlmsg.length } }
  let (flags, rx) ← rx.readNumber 1
  let rx := { rx with ctrlmsg := { rx.ctrlmsg with flags := flags.getD rx.ctrlmsg.flags } }
  some { rx with readbodypos := rx.readpos }

end PacketRxmng

/-- `CAPWAP_WRONG_FRAGMENT`, `CAPWAP_REQUEST_MORE_FRAGMENT` and `CAPWAP_RECEIVE_COMPLETE_PACKET`. -/
inductive RecvResult where
  | wrongFragment | requestMoreFragment | receiveCompletePacket
  deriving DecidableEq

def orderFragment (fragmentlist : List (List UInt8)) (data : List UInt8) : Option (List (List UInt8)) :=
  match fragmentlist with
  | [] => some [data]
  | first :: rest =>
    if getFragmentOffset data < getFragmentOffset first then some (data :: first :: rest)
    else if getFragmentOffset first < getFragmentOffset data ∧ rest = [] then some [first, data]
    else if first.length ≠ data.length ∨ first ≠ data then none
    else some (first :: rest)

def sanityCheck : ℕ → ℕ → List (List UInt8) → RecvResult × ℕ
  | _, packetlength, [] => (.receiveCompletePacket, packetlength)
  | sanityfragoffset, packetlength, packet :: rest =>
    let length := (packet.length + 65536 - getHlen packet * 4) % 65536
    if sanityfragoffset < getFragmentOffset packet then (.requestMoreFragment, packetlength)
    else if getFragmentOffset packet < sanityfragoffset then (.wrongFragment, packetlength)
    else sanityCheck ((sanityfragoffset + length / 8) % 65536) (packetlength + length) rest

/-- `capwap_packet_rxmng_add_recv_packet`; `none` when reading the control message leaves a packet. -/
def addRecvPacket (rx : PacketRxmng) (data : List UInt8) : Option (RecvResult × PacketRxmng) :=
  if isFlag .f data then
    if ((data.length : ℤ) - getHlen data * 4) % 8 ≠ 0 then some (.wrongFragment, rx)
    else if rx.fragmentlist ≠ [] ∧
        getFragmentId data ≠ getFragmentId (rx.fragmentlist.headD []) then some (.wrongFragment, rx)
    else
      match orderFragment rx.fragmentlist data with
      | none => some (.wrongFragment, rx)
      | some fragmentlist =>
        let rx := { rx with fragmentlist := fragmentlist }
        if isFlag .l data then
          match sanityCheck 0 0 fragmentlist with
          | (.requestMoreFragment, n) => some (.requestMoreFragment, { rx with packetlength := n })
          | (.wrongFragment, n) => some (.wrongFragment, { rx with packetlength := n, fragmentlist := [] })
          | (.receiveCompletePacket, n) =>
            (PacketRxmng.complete { rx with packetlength := n }).map fun rx => (.receiveCompletePacket, rx)
        else some (.requestMoreFragment, rx)
  else if rx.fragmentlist ≠ [] then some (.wrongFragment, rx)
  else
    (PacketRxmng.complete { rx with
      fragmentlist := [data]
      packetlength := data.length - getHlen data * 4 }).map fun rx => (.receiveCompletePacket, rx)

/-- The bytes behind the control message of a complete packet, read with `capwap_fragment_read_block`. -/
def PacketRxmng.body (rx : PacketRxmng) : Option (List UInt8) :=
  (rx.readBlock (rx.packetlength - controlMessageSize)).map Prod.fst

def receive (rx : PacketRxmng) : List (List UInt8) → Option (List RecvResult × PacketRxmng)
  | [] => some ([], rx)
  | data :: rest => do
    let (result, rx) ← addRecvPacket rx data
    let (results, rx) ← receive rx rest
    some (result :: results, rx)

/-- The loop of `capwap_packet_rxmng_create_from_requestfragmentpacket`. -/
def rebuildLoop (rx : PacketRxmng) (result : RecvResult) : List FragmentPacketItem → Option (RecvResult × PacketRxmng)
  | [] => some (result, rx)
  | fragment :: rest =>
    match addRecvPacket rx fragment.buffer with
    | none => none
    | some (.wrongFragment, rx) => some (.wrongFragment, rx)
    | some (result, rx) => rebuildLoop rx result rest

/-- `capwap_packet_rxmng_create_from_requestfragmentpacket`; `none` for a null pointer. -/
def createFromRequestFragmentPacket (requestfragmentpacket : List FragmentPacketItem) : Option PacketRxmng :=
  if requestfragmentpacket = [] then none
  else
    match rebuildLoop rxmngCreateMessage .wrongFragment requestfragmentpacket with
    | some (.receiveCompletePacket, rx) => some rx
    | _ => none

end OpenWifi.CapwapProtocol
