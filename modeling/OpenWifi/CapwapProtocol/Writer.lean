import OpenWifi.CapwapProtocol.Header

/-!
# Writing a control message

The transmit side of `capwap_protocol.c`: a control message is written into a list of fragments, a new fragment being
opened when the last one is full.
-/

namespace OpenWifi.CapwapProtocol

/-- `struct capwap_fragment_packet_item`. -/
structure FragmentPacketItem where
  size : ℕ
  buffer : List UInt8
  deriving DecidableEq

def FragmentPacketItem.offset (f : FragmentPacketItem) : ℕ := f.buffer.length

def FragmentPacketItem.payload (f : FragmentPacketItem) : List UInt8 :=
  f.buffer.drop (getHlen f.buffer * 4)

/-- `struct write_block_from_pos`: a position in the fragment list. -/
structure WriteBlockFromPos where
  item : ℕ
  pos : ℕ
  deriving DecidableEq

/-- `struct capwap_packet_txmng`.  The control message lies in the first fragment, at `ctrlmsg`; `header` is its start.
-/
structure PacketTxmng where
  mtu : ℕ
  fragmentlist : List FragmentPacketItem
  ctrlmsg : ℕ
  writerpacketsize : UInt16
  deriving DecidableEq

namespace PacketTxmng

variable (tx : PacketTxmng)

def header : List UInt8 :=
  (tx.fragmentlist.head?.elim [] FragmentPacketItem.buffer).take headerSize

/-- `ntohs(ctrlmsg->length)`. -/
def ctrlLength : ℕ :=
  tx.fragmentlist.head?.elim 0 fun first => readBe16 first.buffer (tx.ctrlmsg + 5)

/-- `ctrlmsg->length` is increased by `growth`. -/
def addLength (growth : ℕ) : PacketTxmng :=
  { tx with
    fragmentlist := tx.fragmentlist.modifyHead fun first =>
      { first with
        buffer := writeAt first.buffer (tx.ctrlmsg + 5)
          (be16 (readBe16 first.buffer (tx.ctrlmsg + 5) + growth)) } }

/-- `writerpacketsize` counts `n` more bytes. -/
def count (n : ℕ) : PacketTxmng :=
  { tx with writerpacketsize := tx.writerpacketsize + UInt16.ofNat n }

/-! ## The write loop -/

/-- The next fragment: the header of the message without radio address and wireless information. -/
def newFragment : FragmentPacketItem where
  size := tx.mtu - (tx.mtu - headerSize) % 8
  buffer := setHlen (setFlag .w (setFlag .m tx.header false) false) (headerSize / 4)

variable (writepos : WriteBlockFromPos)

def space : ℕ :=
  tx.fragmentlist[writepos.item]?.elim 0 fun f => f.size - writepos.pos

/-- Where the loop goes on when there is no space: into the next fragment, at `GET_HLEN_HEADER` bytes
(the source does not multiply the header length by four there), or into a new one. -/
def advance : PacketTxmng × WriteBlockFromPos :=
  match tx.fragmentlist[writepos.item + 1]? with
  | some next => (tx, ⟨writepos.item + 1, getHlen next.buffer⟩)
  | none =>
    ({ tx with fragmentlist := tx.fragmentlist ++ [tx.newFragment] }, ⟨writepos.item + 1, tx.newFragment.offset⟩)

/-- The fragment `f` with `chunk` copied to the position. -/
def put (f : FragmentPacketItem) (chunk : List UInt8) : PacketTxmng :=
  { tx with
    fragmentlist := tx.fragmentlist.set writepos.item
      { f with buffer := writeAt f.buffer writepos.pos chunk } }.count chunk.length

/-- Copy `chunk` to the position and account for what it adds to the message. -/
def copy (chunk : List UInt8) : PacketTxmng :=
  match tx.fragmentlist[writepos.item]? with
  | none => tx
  | some f =>
    if f.offset < chunk.length + writepos.pos then
      (tx.put writepos f chunk).addLength (chunk.length + writepos.pos - f.offset)
    else tx.put writepos f chunk

/-- The `while (length > 0)` loop.  Neither `data` nor the position in the fragment moves on.  A turn copies at least
one byte, so as many turns as there are bytes are enough. -/
def writeLoop (data : List UInt8) : ℕ → ℕ → PacketTxmng → WriteBlockFromPos → Option (ℕ × PacketTxmng)
  | _, 0, tx, _ => some (0, tx)
  | 0, _ + 1, _, _ => none
  | turns + 1, length + 1, tx, writepos =>
    let (tx, writepos) := if min (length + 1) (tx.space writepos) = 0 then tx.advance writepos else (tx, writepos)
    let available := min (length + 1) (tx.space writepos)
    if available = 0 then none
    else writeLoop data turns (length + 1 - available) (tx.copy writepos (data.take available)) writepos

/-- `capwap_fragment_write_block_from_pos`: the number of bytes left to write, and the new state. -/
def writeBlockFromPos (data : List UInt8) (writepos : WriteBlockFromPos) : Option (ℕ × PacketTxmng) :=
  writeLoop data data.length data.length tx writepos

/-! ## The write operations -/

def endPos : WriteBlockFromPos :=
  ⟨tx.fragmentlist.length - 1, tx.fragmentlist.getLast?.elim 0 FragmentPacketItem.offset⟩

/-- `capwap_fragment_write_block`. -/
def writeBlock (data : List UInt8) : Option (ℕ × PacketTxmng) :=
  tx.writeBlockFromPos data tx.endPos

def report (size : ℕ) : ℕ × PacketTxmng → ℤ × PacketTxmng
  | (n, tx) => (if n ≠ size then -1 else size, tx)

/-- `capwap_fragment_write_u8`. -/
def writeU8 (data : UInt8) : Option (ℤ × PacketTxmng) :=
  (tx.writeBlock [data]).map (report 1)

/-- `capwap_fragment_write_u16_from_pos`. -/
def writeU16FromPos (data : UInt16) (writepos : WriteBlockFromPos) : Option (ℤ × PacketTxmng) :=
  (tx.writeBlockFromPos (be16 data.toNat) writepos).map (report 2)

/-- `capwap_fragment_write_u16`. -/
def writeU16 (data : UInt16) : Option (ℤ × PacketTxmng) :=
  (tx.writeBlock (be16 data.toNat)).map (report 2)

/-- `capwap_fragment_write_u32`. -/
def writeU32 (data : UInt32) : Option (ℤ × PacketTxmng) :=
  (tx.writeBlock (be32 data.toNat)).map (report 4)

end PacketTxmng

/-- `capwap_packet_txmng_create`: the first fragment holds the whole header. -/
def txmngCreate (hd : HeaderData) (mtu : ℕ) : PacketTxmng where
  mtu := mtu
  fragmentlist := [{ size := mtu - (mtu - hd.length) % 8, buffer := hd.headerbuffer }]
  ctrlmsg := 0
  writerpacketsize := 0

/-- The bytes of `struct capwap_control_message` (with flags 0). -/
def controlMessage (type seq length : ℕ) : List UInt8 :=
  be32 type ++ [UInt8.ofNat seq] ++ be16 length ++ [0]

/-- `capwap_packet_txmng_create_ctrl_message`; `none` when the mtu is refused.  A zero mtu is excluded by its assertion.
-/
def createCtrlMessage (hd : HeaderData) (type seq mtu : ℕ) : Option PacketTxmng :=
  if mtu = 0 ∨ mtu < hd.length + controlMessageSize then none
  else
    let tx := txmngCreate hd mtu
    some { tx with
      ctrlmsg := hd.length
      fragmentlist := tx.fragmentlist.map fun f =>
        { f with buffer := f.buffer ++ controlMessage type seq controlMessageMinLength } }

/-- The write operations, reserving a length field (two zero bytes are written), and overwriting a field reserved
before. -/
inductive Call where
  | writeU8 (data : UInt8)
  | writeU16 (data : UInt16)
  | writeU32 (data : UInt32)
  | writeBlock (data : List UInt8)
  | reserve
  | overwrite (field : ℕ) (data : UInt16)
  deriving DecidableEq

structure Writer where
  tx : PacketTxmng
  writepos : List WriteBlockFromPos
  deriving DecidableEq

def Writer.exec (w : Writer) : Call → Option Writer
  | .writeU8 data => (w.tx.writeU8 data).map fun r => { w with tx := r.2 }
  | .writeU16 data => (w.tx.writeU16 data).map fun r => { w with tx := r.2 }
  | .writeU32 data => (w.tx.writeU32 data).map fun r => { w with tx := r.2 }
  | .writeBlock data => (w.tx.writeBlock data).map fun r => { w with tx := r.2 }
  | .reserve => (w.tx.writeU16 0).map fun r => { tx := r.2, writepos := w.writepos ++ [w.tx.endPos] }
  | .overwrite field data =>
    match w.writepos[field]? with
    | none => some w
    | some saved => (w.tx.writeU16FromPos data saved).map fun r => { w with tx := r.2 }

def Writer.run (w : Writer) : List Call → Option Writer
  | [] => some w
  | c :: cs => (w.exec c).bind fun w' => w'.run cs

def Written (fragments : List FragmentPacketItem) : Prop :=
  ∃ first rest, fragments = first :: rest ∧ 2 ≤ getHlen first.buffer ∧
    getHlen first.buffer * 4 + controlMessageSize ≤ first.buffer.length

end OpenWifi.CapwapProtocol
