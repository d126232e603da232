import OpenWifi.Lib.Bytes

/-!
# The CAPWAP header

The header fields of `capwap_rfc.h` on the bytes of a packet, for the little-endian layout of `struct capwap_header`:
byte 1 holds the high bits of the radio id and the header length, byte 3 the flags, bytes 4 and 5 the fragment id,
bytes 6 and 7 the fragment offset.
-/

namespace OpenWifi.CapwapProtocol

/-- The size of `struct capwap_header`. -/
def headerSize : ℕ := 8

/-- The size of `struct capwap_control_message`. -/
def controlMessageSize : ℕ := 8

def controlMessageMinLength : ℕ := 3

/-! ## Header length and flags -/

/-- `GET_HLEN_HEADER`: the length of the header in words of four bytes. -/
def getHlen (buf : List UInt8) : ℕ := byteAt buf 1 / 8

/-- `SET_HLEN_HEADER`. -/
def setHlen (buf : List UInt8) (y : ℕ) : List UInt8 :=
  buf.set 1 (UInt8.ofNat (byteAt buf 1 % 8 + y % 32 * 8))

inductive Flag where
  | k | m | w | l | f
  deriving DecidableEq

def Flag.bit : Flag → ℕ
  | .k => 8
  | .m => 16
  | .w => 32
  | .l => 64
  | .f => 128

/-- `IS_FLAG_x_HEADER`. -/
def isFlag (x : Flag) (buf : List UInt8) : Bool := byteAt buf 3 / x.bit % 2 == 1

/-- `SET_FLAG_x_HEADER`. -/
def setFlag (x : Flag) (buf : List UInt8) (y : Bool) : List UInt8 :=
  buf.set 3 (UInt8.ofNat (byteAt buf 3 - byteAt buf 3 / x.bit % 2 * x.bit + if y then x.bit else 0))

/-- `GET_FRAGMENT_ID_HEADER`. -/
def getFragmentId (buf : List UInt8) : ℕ := readBe16 buf 4

/-- `SET_FRAGMENT_ID_HEADER`. -/
def setFragmentId (buf : List UInt8) (y : ℕ) : List UInt8 := writeAt buf 4 (be16 y)

/-- `FRAGMENT_OFFSET_MASK` (`0xfff8`) on a 16-bit number. -/
def maskOffset (y : ℕ) : ℕ := y % 65536 / 8 * 8

/-- `GET_FRAGMENT_OFFSET_HEADER`. -/
def getFragmentOffset (buf : List UInt8) : ℕ := maskOffset (readBe16 buf 6)

/-- `SET_FRAGMENT_OFFSET_HEADER`.  The complement of the mask is applied to the field as the machine
reads it, low byte first, so it keeps the low three bits of byte 6 and clears byte 7. -/
def setFragmentOffset (buf : List UInt8) (y : ℕ) : List UInt8 :=
  (buf.set 6 (UInt8.ofNat (byteAt buf 6 % 8 ||| maskOffset y / 256))).set 7
    (UInt8.ofNat (maskOffset y))

/-! ## Reading back -/

theorem byteAt_lt (buf : List UInt8) (i : ℕ) : byteAt buf i < 256 := (buf.getD i 0).toNat_lt

variable {buf : List UInt8}

theorem byteAt_set {i : ℕ} (h : i < buf.length) (b : UInt8) (j : ℕ) :
    byteAt (buf.set i b) j = if j = i then b.toNat else byteAt buf j := by
  simp only [byteAt, List.getD_eq_getElem?_getD, List.getElem?_set]
  split_ifs with same other
  · simp
  · omega
  · omega
  · rfl

theorem getHlen_congr {a b : List UInt8} (h : a[1]? = b[1]?) : getHlen a = getHlen b := by
  unfold getHlen
  rw [byteAt_congr h]

theorem getHlen_writeAt {pos : ℕ} (low : 2 ≤ pos) (h : pos ≤ buf.length)
    (chunk : List UInt8) : getHlen (writeAt buf pos chunk) = getHlen buf := by
  apply getHlen_congr
  rw [getElem?_writeAt h, if_neg (by omega)]

theorem getHlen_setHlen (h : 1 < buf.length) {y : ℕ} (small : y < 32) : getHlen (setHlen buf y) = y := by
  unfold getHlen setHlen
  rw [byteAt_set h, if_pos rfl, UInt8.toNat_ofNat']
  omega

@[simp] theorem length_setHlen (buf : List UInt8) (y : ℕ) : (setHlen buf y).length = buf.length := by
  simp [setHlen]

@[simp] theorem length_setFlag (x : Flag) (buf : List UInt8) (y : Bool) : (setFlag x buf y).length = buf.length := by
  simp [setFlag]

/-- `struct capwap_header_data`: the part of the header buffer that the header length covers. -/
structure HeaderData where
  headerbuffer : List UInt8
  length_eq : headerbuffer.length = 4 * getHlen headerbuffer
  two_le_hlen : 2 ≤ getHlen headerbuffer

def HeaderData.length (hd : HeaderData) : ℕ := getHlen hd.headerbuffer * 4

theorem HeaderData.headerSize_le (hd : HeaderData) : headerSize ≤ hd.length := by
  have := hd.two_le_hlen
  simp only [headerSize, HeaderData.length]
  omega

theorem getHlen_init (radioid binding : ℕ) :
    getHlen [0, UInt8.ofNat (radioid / 4 % 8 + 16), UInt8.ofNat (binding % 32 * 2 + radioid % 4 * 64),
      0, 0, 0, 0, 0] = 2 := by
  simp [getHlen, byteAt, UInt8.toNat_ofNat']
  omega

/-- `capwap_header_init`: version and preamble type are 0; the ten bits of radio id and binding are
spread over bytes 1 and 2. -/
def headerInit (radioid binding : ℕ) : HeaderData where
  headerbuffer :=
    [0, UInt8.ofNat (radioid / 4 % 8 + 16), UInt8.ofNat (binding % 32 * 2 + radioid % 4 * 64), 0, 0, 0, 0, 0]
  length_eq := by rw [getHlen_init]; rfl
  two_le_hlen := (getHlen_init radioid binding).ge

end OpenWifi.CapwapProtocol
