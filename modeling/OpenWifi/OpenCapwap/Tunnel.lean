import OpenWifi.Kmod.FrameConversion
import OpenWifi.OpenCapwap.StationTree

/-!
# Frames between the AC and the network

The conversions of `CWTunnel.c`.  In one of them the type of a frame is a `short int`, which is never equal to
`ETH_P_AARP` or `ETH_P_IPX`.
-/

namespace OpenWifi.OpenCapwap

open Kmod (Mac rfc1042Header bridgeTunnelHeader isTunnelled ntohsAt from8023To80211 EthFrame)

def broadcast : Address := .replicate 6 0xff

def addressAt (frame : List UInt8) (pos : ℕ) : Address := .ofFn fun i => frame.getD (pos + i) 0

/-- `CWConvertDataFrame_8023_to_80211`: the frame, as `sc_capwap_8023_to_80211` of the kernel module computes it, and
`WTPIndex`. -/
def convert8023To80211 (avlTree : StationTree) (frame : List UInt8) : Option (List UInt8 × ℤ) :=
  let DA := addressAt frame 0
  if DA = broadcast then some (from8023To80211 frame fun _ => 0xff, -1)
  else (avlTree.findAt DA).map fun tmpNode => (from8023To80211 frame tmpNode.BSSID.get, tmpNode.index)

/-- `CWConvertDataFrame_80211_to_8023`. -/
def convert80211To8023 (frame : List UInt8) : List UInt8 :=
  let payload := frame.drop 24
  let etherType := BitVec.ofNat 16 (ntohsAt payload 6)
  let addresses := (frame.drop 16).take 6 ++ (frame.drop 10).take 6
  if payload.take 6 = rfc1042Header ∧ (etherType.toInt ≠ 0x80F3 ∧ etherType.toInt ≠ 0x8137) ∨
      payload.take 6 = bridgeTunnelHeader then
    addresses ++ (be16 etherType.toNat ++ frame.drop (24 + 8))
  else addresses ++ (be16 payload.length ++ payload)

/-- A data frame to the distribution system; `start` is the frame control, the duration and the BSSID. -/
structure ToDsFrame where
  start : Fin 10 → UInt8
  SA : Mac
  DA : Mac
  seqCtrl : Fin 2 → UInt8
  body : List UInt8

namespace ToDsFrame

def bytes (f : ToDsFrame) : List UInt8 :=
  List.ofFn f.start ++ (List.ofFn f.SA ++ (List.ofFn f.DA ++ (List.ofFn f.seqCtrl ++ f.body)))

structure InDomain (avlTree : StationTree) (f : ToDsFrame) : Prop where
  known : .ofFn f.DA = broadcast ∨ (avlTree.findAt (.ofFn f.DA)).isSome
  long : 8 ≤ f.body.length
  short : f.body.length < 0x0600
  header : f.body.take 6 = rfc1042Header ∧ 0x0600 ≤ ntohsAt f.body 6 ∨
    f.body.take 6 = bridgeTunnelHeader ∧ isTunnelled (ntohsAt f.body 6) ∨
    f.body.take 6 ≠ rfc1042Header ∧ f.body.take 6 ≠ bridgeTunnelHeader

def LosesNothing (avlTree : StationTree) (f : ToDsFrame) : Prop :=
  ∃ out index, convert8023To80211 avlTree (convert80211To8023 f.bytes) = some (out, index) ∧
    addressAt out 4 = .ofFn f.DA ∧ addressAt out 16 = .ofFn f.SA ∧ out.drop 24 = f.body

variable {avlTree : StationTree} {f : ToDsFrame}

def eth (f : ToDsFrame) (proto : ℕ) (payload : List UInt8) : EthFrame := ⟨f.DA, f.SA, .ofNat proto, payload⟩

theorem ntohsAt_lt (skb : List UInt8) (pos : ℕ) : ntohsAt skb pos < 65536 := by
  have high := (skb.getD pos 0).toNat_lt
  have low := (skb.getD (pos + 1) 0).toNat_lt
  rw [ntohsAt]
  omega

theorem convert80211To8023_bytes (short : f.body.length < 0x0600) : convert80211To8023 f.bytes =
    (if f.body.take 6 = rfc1042Header ∨ f.body.take 6 = bridgeTunnelHeader then
      f.eth (ntohsAt f.body 6) (f.body.drop 8) else f.eth f.body.length f.body).bytes := by
  -- a `short int` is below both constants
  have signed (x : BitVec 16) : x.toInt ≠ 0x80F3 ∧ x.toInt ≠ 0x8137 := by
    have := x.toInt_lt
    omega
  have payload : f.bytes.drop 24 = f.body := rfl
  simp only [convert80211To8023, payload, and_iff_left (signed _), BitVec.toNat_ofNat,
    Nat.mod_eq_of_lt (ntohsAt_lt f.body 6)]
  split_ifs
  · rw [EthFrame.bytes, eth, UInt16.toNat_ofNat_of_lt' (ntohsAt_lt f.body 6)]
    rfl
  · rw [EthFrame.bytes, eth, UInt16.toNat_ofNat_of_lt' (show f.body.length < 65536 by omega)]
    rfl

theorem losesNothing_iff_body (known : .ofFn f.DA = broadcast ∨ (avlTree.findAt (.ofFn f.DA)).isSome) {proto : ℕ}
    {payload : List UInt8} (small : proto < 65536)
    (converted : convert80211To8023 f.bytes = (f.eth proto payload).bytes) :
    LosesNothing avlTree f ↔ f.body = if isTunnelled proto then bridgeTunnelHeader ++ (be16 proto ++ payload)
      else if 0x0600 ≤ proto then rfc1042Header ++ (be16 proto ++ payload) else payload := by
  obtain ⟨bssid, index, run⟩ : ∃ bssid index, convert8023To80211 avlTree (convert80211To8023 f.bytes) =
      some (from8023To80211 (f.eth proto payload).bytes bssid, index) := by
    rw [converted]
    by_cases all : .ofFn f.DA = broadcast
    · exact ⟨_, -1, if_pos all⟩
    · obtain ⟨tmpNode, found⟩ := Option.isSome_iff_exists.1 (known.resolve_left all)
      exact ⟨_, _, (if_neg all).trans (congrArg _ found)⟩
  rw [EthFrame.from8023To80211_bytes,
    show (f.eth proto payload).proto.toNat = proto from UInt16.toNat_ofNat_of_lt' small] at run
  constructor
  · rintro ⟨out, index', run', -, -, body⟩
    obtain ⟨rfl, -⟩ := Prod.mk.inj (Option.some.inj (run.symm.trans run'))
    exact body.symm
  · exact fun body => ⟨_, _, run, rfl, rfl, body.symm⟩

theorem take_append_type {body : List UInt8} (long : 8 ≤ body.length) :
    body.take 6 ++ (be16 (ntohsAt body 6) ++ body.drop 8) = body := by
  match body, long with
  | a :: b :: c :: d :: e :: f :: high :: low :: rest, _ =>
    have top : (high.toNat * 256 + low.toNat) / 256 = high.toNat := by
      have := low.toNat_lt
      omega
    simp [be16, ntohsAt, top]

/-- Exactly AARP and IPX behind an RFC 1042 header come back with the other header. -/
theorem losesNothing_iff (domain : InDomain avlTree f) :
    LosesNothing avlTree f ↔ ¬ (f.body.take 6 = rfc1042Header ∧ isTunnelled (ntohsAt f.body 6)) := by
  have converted := convert80211To8023_bytes domain.short
  have small := ntohsAt_lt f.body 6
  have parts := take_append_type domain.long
  rcases domain.header with ⟨rfc, large⟩ | ⟨bridge, tunnelled⟩ | ⟨notRfc, notBridge⟩
  · rw [if_pos (.inl rfc)] at converted
    rw [losesNothing_iff_body domain.known small converted, and_iff_right rfc]
    split_ifs with tunnelled
    · refine iff_of_false (fun body => ?_) (not_not.2 tunnelled)
      rw [body] at rfc
      exact absurd (show bridgeTunnelHeader = rfc1042Header from rfc) (by decide)
    · exact iff_of_true (by rw [← rfc, parts]) tunnelled
  · rw [if_pos (.inr bridge)] at converted
    rw [losesNothing_iff_body domain.known small converted, if_pos tunnelled]
    refine iff_of_true (by rw [← bridge, parts]) fun other => ?_
    exact absurd (bridge.symm.trans other.1) (by decide)
  · rw [if_neg (not_or.2 ⟨notRfc, notBridge⟩)] at converted
    have short := domain.short
    rw [losesNothing_iff_body domain.known (by omega) converted, if_neg (by simp [isTunnelled]; omega),
      if_neg (by omega)]
    exact iff_of_true rfl fun other => notRfc other.1

def toAll (rest : List UInt8) : ToDsFrame := ⟨fun _ => 0, fun _ => 2, fun _ => 0xff, fun _ => 0, rfc1042Header ++ rest⟩

theorem losesNothing_iff_ipv4 : LosesNothing .nil (toAll [0x08, 0x00, 69]) :=
  (losesNothing_iff ⟨.inl rfl, by decide, by decide, .inl ⟨rfl, by decide⟩⟩).2 (by decide)

theorem not_losesNothing_ipx :
    InDomain .nil (toAll [0x81, 0x37, 69]) ∧ ¬ LosesNothing .nil (toAll [0x81, 0x37, 69]) := by
  refine ⟨⟨.inl rfl, by decide, by decide, .inl ⟨rfl, by decide⟩⟩, ?_⟩
  rintro ⟨out, index, run, -, -, body⟩
  obtain ⟨rfl, -⟩ := Prod.mk.inj (Option.some.inj run)
  exact absurd body (by decide)

end ToDsFrame

end OpenWifi.OpenCapwap
