import OpenWifi.Lib.Bytes

/-!
# Frames between Ethernet and IEEE 802.11

`sc_capwap_8023_to_80211` puts an IEEE 802.11 header before an Ethernet frame, and for a type field a SNAP header;
`sc_capwap_80211_to_8023` takes them off again.
-/

namespace OpenWifi.Kmod

open List (ofFn)

/-- The six bytes of an address. -/
abbrev Mac := Fin 6 → UInt8

/-- `sc_rfc1042_header`. -/
def rfc1042Header : List UInt8 := [0xaa, 0xaa, 0x03, 0x00, 0x00, 0x00]

/-- `sc_bridge_tunnel_header`. -/
def bridgeTunnelHeader : List UInt8 := [0xaa, 0xaa, 0x03, 0x00, 0x00, 0xf8]

/-- `ETH_P_AARP` or `ETH_P_IPX`. -/
def isTunnelled (ethertype : ℕ) : Bool := ethertype = 0x80F3 || ethertype = 0x8137

variable (skb : List UInt8)

/-- Two bytes, the high one first. -/
def ntohsAt (pos : ℕ) : ℕ := (skb.getD pos 0).toNat * 256 + (skb.getD (pos + 1) 0).toNat

/-- Two bytes, the low one first. -/
def le16At (pos : ℕ) : BitVec 16 :=
  BitVec.ofNat 16 ((skb.getD pos 0).toNat + (skb.getD (pos + 1) 0).toNat * 256)

/-- `sc_capwap_80211_hdrlen`. -/
def hdrlen80211 (fc : BitVec 16) : ℕ :=
  if fc &&& 0x000C = 0x0008 then
    let hdrlen := if fc &&& 0x0300 = 0x0300 then 30 else 24
    if fc &&& 0x008C = 0x0088 then
      if fc &&& 0x8000 ≠ 0 then hdrlen + 2 + 4 else hdrlen + 2
    else hdrlen
  else if fc &&& 0x000C = 0x0004 then
    if fc &&& 0x00E0 = 0x00C0 then 10 else 16
  else 24

/-- `sc_capwap_8023_to_80211`, with the memory that it needs. -/
def from8023To80211 (bssid : Mac) : List UInt8 :=
  let ethertype := ntohsAt skb 12
  let hdr := [0x08, 0x02, 0, 0] ++ skb.take 6 ++ ofFn bssid ++ (skb.drop 6).take 6 ++ [0, 0]
  if isTunnelled ethertype then hdr ++ (bridgeTunnelHeader ++ skb.drop 12)
  else if 0x0600 ≤ ethertype then hdr ++ (rfc1042Header ++ skb.drop 12)
  else hdr ++ skb.drop 14

/-- `sc_capwap_80211_to_8023`. -/
def from80211To8023 : Option (List UInt8) :=
  let fc := le16At skb 0
  let hdrlen := hdrlen80211 fc
  let addr (pos : ℕ) : List UInt8 := (skb.drop pos).take 6
  let dst := if fc &&& 0x0100 ≠ 0 then addr 16 else addr 4
  let src := if fc &&& 0x0300 = 0x0300 then addr 24 else if fc &&& 0x0200 ≠ 0 then addr 16 else addr 10
  let payload := skb.drop hdrlen
  let ethertype := ntohsAt payload 6
  if skb.length < hdrlen + 8 then none
  else if payload.take 6 = rfc1042Header ∧ isTunnelled ethertype = false ∨ payload.take 6 = bridgeTunnelHeader then
    some (dst ++ src ++ payload.drop 6)
  else some (dst ++ src ++ be16 payload.length ++ payload)

/-- An Ethernet frame. -/
structure EthFrame where
  dest : Mac
  source : Mac
  proto : UInt16
  payload : List UInt8

namespace EthFrame

def bytes (f : EthFrame) : List UInt8 :=
  ofFn f.dest ++ (ofFn f.source ++ (be16 f.proto.toNat ++ f.payload))

/-- The header that a frame gets. -/
def header (f : EthFrame) (bssid : Mac) : List UInt8 :=
  [0x08, 0x02, 0, 0] ++ ofFn f.dest ++ ofFn bssid ++ ofFn f.source ++ [0, 0]

/-- The frame has a type, or the length of a payload that does not start with one of the SNAP headers. -/
def InDomain (f : EthFrame) : Prop :=
  0x0600 ≤ f.proto.toNat ∨ f.proto.toNat = f.payload.length ∧ f.payload.length < 0x0600 ∧
    f.payload.take 6 ≠ rfc1042Header ∧ f.payload.take 6 ≠ bridgeTunnelHeader

variable {f : EthFrame} {bssid : Mac}

theorem ntohsAt_be16 (proto : UInt16) (front rest : List UInt8) :
    ntohsAt (front ++ (be16 proto.toNat ++ rest)) front.length = proto.toNat := by
  have := proto.toNat_lt
  simp [ntohsAt, be16]
  omega

theorem from8023To80211_bytes (f : EthFrame) (bssid : Mac) : from8023To80211 f.bytes bssid = f.header bssid ++
      if isTunnelled f.proto.toNat then bridgeTunnelHeader ++ (be16 f.proto.toNat ++ f.payload)
      else if 0x0600 ≤ f.proto.toNat then rfc1042Header ++ (be16 f.proto.toNat ++ f.payload) else f.payload := by
  have ethertype : ntohsAt f.bytes 12 = f.proto.toNat := by
    simpa [bytes] using ntohsAt_be16 f.proto (ofFn f.dest ++ ofFn f.source) f.payload
  simp only [from8023To80211, ethertype]
  split_ifs <;> rfl

theorem from80211To8023_header (f : EthFrame) (bssid : Mac) (body : List UInt8) :
    from80211To8023 (f.header bssid ++ body) = if body.length < 8 then none
      else if body.take 6 = rfc1042Header ∧ isTunnelled (ntohsAt body 6) = false ∨ body.take 6 = bridgeTunnelHeader then
        some (ofFn f.dest ++ ofFn f.source ++ body.drop 6)
      else some (ofFn f.dest ++ ofFn f.source ++ be16 body.length ++ body) := by
  have fc : le16At (f.header bssid ++ body) 0 = 0x0208 := by
    simp [le16At, header]
  have hdrlen : hdrlen80211 0x0208 = 24 := by decide
  have short : (f.header bssid ++ body).length < 24 + 8 ↔ body.length < 8 := by
    simp [header]
    omega
  simp only [from80211To8023, fc, hdrlen, short]
  rfl

/-- A frame comes back if it has a type, and with a length if its payload has at least eight bytes. -/
theorem roundTrip_iff (domain : f.InDomain) :
    from80211To8023 (from8023To80211 f.bytes bssid) = some f.bytes ↔ 0x0600 ≤ f.proto.toNat ∨ 8 ≤ f.payload.length := by
  have type (snap : List UInt8) (six : snap.length = 6) :
    ntohsAt (snap ++ (be16 f.proto.toNat ++ f.payload)) 6 = f.proto.toNat := by
    rw [← six]
    exact ntohsAt_be16 ..
  rw [from8023To80211_bytes, from80211To8023_header]
  by_cases tunnelled : isTunnelled f.proto.toNat
  · have large : 0x0600 ≤ f.proto.toNat := by
      simp only [isTunnelled, Bool.or_eq_true, decide_eq_true_eq] at tunnelled
      omega
    rw [if_pos tunnelled, if_neg (by simp [bridgeTunnelHeader, be16]), if_pos (.inr rfl)]
    simp [large, bytes, bridgeTunnelHeader]
  rw [if_neg tunnelled]
  by_cases large : 0x0600 ≤ f.proto.toNat
  · rw [if_pos large, if_neg (by simp [rfc1042Header, be16]),
      if_pos (.inl ⟨rfl, by rw [type _ rfl]; simpa using tunnelled⟩)]
    simp [large, bytes, rfc1042Header]
  · obtain ⟨length, -, notRfc, notBridge⟩ := domain.resolve_left large
    rw [if_neg large]
    by_cases few : f.payload.length < 8
    · rw [if_pos few]
      simp [large]
      omega
    · rw [if_neg few, if_neg (by simp [notRfc, notBridge]), ← length]
      simp [bytes]
      omega

theorem roundTrip_iff_type :
    from80211To8023 (from8023To80211 (EthFrame.bytes ⟨fun _ => 1, fun _ => 2, 0x0800, [69]⟩) fun _ => 3) =
      some (EthFrame.bytes ⟨fun _ => 1, fun _ => 2, 0x0800, [69]⟩) :=
  (roundTrip_iff (.inl (by decide))).2 (.inl (by decide))

/-- A frame with three bytes, not a SNAP header. -/
theorem short_frame_lost : EthFrame.InDomain ⟨fun _ => 1, fun _ => 2, 3, [0x42, 0x42, 0x03]⟩ ∧
      from80211To8023 (from8023To80211 (EthFrame.bytes ⟨fun _ => 1, fun _ => 2, 3, [0x42, 0x42, 0x03]⟩) fun _ =>
        3) = none :=
  ⟨.inr (by decide), by decide⟩

end EthFrame

end OpenWifi.Kmod
