import Mathlib.Logic.Function.Iterate
import Mathlib.Tactic.Common

/-!
# Network addresses

`capwap_get_network_address` of `capwap_network.c` clears the bits of an address behind a prefix, with a mask in an
`unsigned long` for IPv4 and byte by byte for IPv6.
-/

namespace OpenWifi.CapwapProtocol

open BitVec

/-- The sizes of `unsigned long`. -/
inductive Long
  | bits32
  | bits64

def Long.width : Long → ℕ
  | .bits32 => 32
  | .bits64 => 64

inductive Family
  | inet
  | inet6

def Family.size : Family → ℕ
  | .inet => 4
  | .inet6 => 16

/-- The bytes of an address, in network order. -/
abbrev Address (family : Family) := Fin family.size → BitVec 8

/-- The loops `mask <<= 1`. -/
def shifted {w : ℕ} (mask : BitVec w) (n : ℕ) : BitVec w := (fun mask : BitVec w => mask <<< 1)^[n] mask

/-- `capwap_get_network_address`. -/
def getNetworkAddress (long : Long) (bitsmask : ℕ) : {family : Family} → Address family → Address family
  | .inet, addr => fun k =>
    let mask : BitVec long.width := shifted 0xffffffff#_ (32 - bitsmask)
    addr k &&& (mask.setWidth 32).extractLsb' (24 - 8 * k) 8
  | .inet6, addr => fun k =>
    let pos := BitVec.ofNat long.width (bitsmask / 8)
    let delta := bitsmask % 8
    if ((if delta = 0 then pos - 1 else pos) + 1).toNat ≤ k then 0
    else if delta ≠ 0 ∧ pos.toNat = k then addr k &&& shifted 0xff#8 (8 - delta)
    else addr k

/-- The comparison in `capwap_get_routeaddress`, for a route with the family of the peer. -/
def sameNetwork (long : Long) {family : Family} (peer dest : Address family) (destmask : ℕ) : Bool :=
  decide (∀ k, getNetworkAddress long destmask peer k = getNetworkAddress long destmask dest k)

theorem getMsbD_mask : ∀ j < 8, ∀ n ≤ 8, (shifted 0xff#8 (8 - n)).getMsbD j = decide (j < n) := by decide

theorem getLsbD_mask (long : Long) : ∀ i < 32, ∀ n ≤ 32,
    (shifted (BitVec.ofNat long.width 0xffffffff) (32 - n)).getLsbD i = decide (31 - i < n) := by
  cases long <;> decide +kernel

theorem toNat_word (long : Long) {n : ℕ} (le : n ≤ 16) : (BitVec.ofNat long.width n).toNat = n := by
  cases long <;> exact Nat.mod_eq_of_lt (by dsimp only [Long.width]; omega)

theorem getMsbD_getNetworkAddress (long : Long) {family : Family} (addr : Address family)
    (bits : Fin (8 * family.size + 1)) (k : Fin family.size) (j : Fin 8) :
    (getNetworkAddress long bits addr k).getMsbD j = ((addr k).getMsbD j && decide (8 * k.val + j < bits)) := by
  obtain ⟨⟨bits, le⟩, ⟨k, ltK⟩, ⟨j, ltJ⟩⟩ := bits, k, j
  cases family with
  | inet =>
    have small : bits < 33 ∧ k < 4 := ⟨le, ltK⟩
    have place : 24 - 8 * k + (7 - j) = 31 - (8 * k + j) := by omega
    have mask := getLsbD_mask long (31 - (8 * k + j)) (by omega) bits (by omega)
    rw [show 31 - (31 - (8 * k + j)) = 8 * k + j by omega] at mask
    rw [getNetworkAddress, getMsbD_and]
    simp [getMsbD, ltJ, place, mask, show 7 - j < 8 by omega, show 31 - (8 * k + j) < 32 by omega]
  | inet6 =>
    have small : bits < 129 ∧ k < 16 := ⟨le, ltK⟩
    have start : ((if bits % 8 = 0 then BitVec.ofNat long.width (bits / 8) - 1 else BitVec.ofNat long.width (bits / 8))
      +
        1).toNat = (bits + 7) / 8 := by
      split
      · rw [BitVec.sub_add_cancel, toNat_word long (by omega)]
        omega
      · have next := toNat_word long (n := bits / 8 + 1) (by omega)
        rw [BitVec.ofNat_add] at next
        exact next.trans (by omega)
    simp only [getNetworkAddress, start, toNat_word long (show bits / 8 ≤ 16 by omega)]
    split
    · simp
      omega
    · split
      · rw [getMsbD_and, getMsbD_mask j ltJ _ (by omega)]
        exact congrArg (_ && ·) (decide_eq_decide.2 (by omega))
      · simp
        omega

/-- **The first bits are kept and the others are cleared**, so that networks are compared by these bits. -/
theorem getNetworkAddress_prefix (long : Long) {family : Family} (peer dest : Address family)
    (bits : Fin (8 * family.size + 1)) : (∀ (k : Fin family.size) (j : Fin 8),
      (getNetworkAddress long bits peer k).getMsbD j = ((peer k).getMsbD j && decide (8 * k.val + j < bits))) ∧
    (sameNetwork long peer dest bits ↔
      ∀ (k : Fin family.size) (j : Fin 8), 8 * k.val + j < bits → (peer k).getMsbD j = (dest k).getMsbD j) := by
  refine ⟨getMsbD_getNetworkAddress long peer bits, ?_⟩
  rw [sameNetwork, decide_eq_true_iff]
  refine forall_congr' fun k => ⟨fun same j inside => ?_, fun same => eq_of_getMsbD_eq fun j lt => ?_⟩
  · have bit := congrArg (getMsbD · j.val) same
    simpa [getMsbD_getNetworkAddress, inside] using bit
  · have left := getMsbD_getNetworkAddress long peer bits k ⟨j, lt⟩
    have right := getMsbD_getNetworkAddress long dest bits k ⟨j, lt⟩
    rw [left, right]
    by_cases inside : 8 * k.val + j < bits
    · rw [same ⟨j, lt⟩ inside]
    · simp [inside]

end OpenWifi.CapwapProtocol
