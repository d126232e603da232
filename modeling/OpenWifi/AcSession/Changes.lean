import OpenWifi.AcSession.Tables
import Mathlib.Logic.Relation

/-!
# The changes of the station tables

Every handler makes a few elementary changes to the tables.  `Change` lists them with what holds when they are made, so
that an invariant has to be looked at for these only.
-/

namespace OpenWifi.AcSession

open Ieee80211

namespace Wlans

variable {w w' : Wlans} {ok : StatusCode → Prop} {fresh : ℕ → Prop} {a : MacAddress}

/-- The station `a` has the record `st` and is on `wlan`. -/
structure On (w : Wlans) (a : MacAddress) (st : Station) (wlan : Wlan) : Prop where
  found : w.stations a = some st
  on : st.wlan = some wlan.ref
  there : w.lookup wlan.ref = some wlan

structure Lowers (st st' : Station) : Prop where
  address : st'.address = st.address
  wlan : st'.wlan = st.wlan
  aid : st'.aid = st.aid
  authenticated : st'.flags.authenticated → st.flags.authenticated
  associate : st'.flags.associate → st.flags.associate

def setAuthenticated (st : Station) : Station :=
  { st with flags := { st.flags with authenticated := true } }

def setAssociate (st : Station) : Station := { st with flags := { st.flags with associate := true } }

inductive Change (ok : StatusCode → Prop) (fresh : ℕ → Prop) : Wlans → Wlans → Prop
  | actions (w : Wlans) (action : List Action) : Change ok fresh w { w with action := action }
  | deauthentication (w : Wlans) (a : MacAddress) : Change ok fresh w (w.emit (.deauthentication a))
  | modify (w : Wlans) (a : MacAddress) (f : Station → Station) (lowers : ∀ st, Lowers st (f st)) :
      Change ok fresh w (w.modifyStation a f)
  | insert (w : Wlans) (a : MacAddress) (absent : w.stations a = none) :
      Change ok fresh w (w.setStation { address := a })
  | reset (w : Wlans) (st : Station) (target : Option WlanRef)
      (known : w.stations st.address = some st)
      (there : ∀ ref, target = some ref → (w.lookup ref).isSome) :
      Change ok fresh w (w.resetStation st target)
  | created (w : Wlans) (a : MacAddress)
      (clear : ∀ st, w.stations a = some st → st.flags.authenticated = false ∧ st.flags.associate = false) :
      Change ok fresh w (w.emit (.created a))
  | remove (w : Wlans) (a : MacAddress) (off : ∀ st, w.stations a = some st → st.wlan = none) :
      Change ok fresh w { w with stations := Function.update w.stations a none }
  | assign (w : Wlans) (wlan : Wlan) (absent : w.lookup wlan.ref = none)
      (aids : wlan.aidbitfield = noAids) (empty : wlan.stations = []) :
      Change ok fresh w { w with wlans := w.wlans ++ [wlan] }
  | erase (w : Wlans) (ref : WlanRef) (free : ∀ a st, w.stations a = some st → st.wlan ≠ some ref) :
      Change ok fresh w { w with wlans := w.wlans.eraseP fun wlan => wlan.ref = ref }
  | authenticate (w : Wlans) (a : MacAddress) (algorithm number : UInt16) (status : StatusCode)
      (allowed : ok status) :
      Change ok fresh w ((w.emit (.authenticationResponse a algorithm number status)).modifyStation a setAuthenticated)
  | authenticateLocal (w : Wlans) {a : MacAddress} {st : Station} {wlan : Wlan} (on : w.On a st wlan)
      (mode : wlan.macmode = .localMac) : Change ok fresh w (w.modifyStation a setAuthenticated)
  | assignAid (w : Wlans) {a : MacAddress} {st : Station} {wlan : Wlan} (on : w.On a st wlan)
      {bits : List (BitVec 32)} {aid : ℕ} (new : aidCreate wlan.aidbitfield = (bits, some aid))
      (allowed : fresh st.aid) :
      Change ok fresh w ((w.updateWlan wlan.ref fun wlan => { wlan with aidbitfield := bits }).modifyStation
        a fun st => { st with aid := aid })
  | clearAid (w : Wlans) {a : MacAddress} {st : Station} (found : w.stations a = some st)
      (allowed : fresh st.aid) : Change ok fresh w (w.modifyStation a fun st => { st with aid := 0 })
  | associate (w : Wlans) {a : MacAddress} {st : Station} (found : w.stations a = some st)
      (authenticated : st.flags.authenticated) (capability : UInt16) (status : StatusCode) (aid : ℕ)
      (allowed : ok status) :
      Change ok fresh w ((w.emit (.associationResponse a capability status aid)).modifyStation a setAssociate)
  | associateLocal (w : Wlans) {a : MacAddress} {st : Station} {wlan : Wlan} (on : w.On a st wlan)
      (mode : wlan.macmode = .localMac) (capability : UInt16) (aid : ℕ) :
      Change ok fresh w (w.modifyStation a fun st =>
        { st with
          capability := capability
          aid := aid
          flags := { st.flags with associate := true } })
  | authorize (w : Wlans) {a : MacAddress} {st : Station} {wlan : Wlan} (on : w.On a st wlan)
      (authenticated : st.flags.authenticated) (associate : st.flags.associate) :
      Change ok fresh w (w.emit (.addStation a wlan.macmode))

def Changes (ok : StatusCode → Prop) (fresh : ℕ → Prop) : Wlans → Wlans → Prop :=
  Relation.ReflTransGen (Change ok fresh)

@[refl] theorem Changes.refl (w : Wlans) : Changes ok fresh w w := Relation.ReflTransGen.refl

theorem Changes.trans {w₁ w₂ w₃ : Wlans} (h : Changes ok fresh w₁ w₂) (h' : Changes ok fresh w₂ w₃) :
    Changes ok fresh w₁ w₃ := Relation.ReflTransGen.trans h h'

theorem Change.changes (h : Change ok fresh w w') : Changes ok fresh w w' :=
  Relation.ReflTransGen.single h

theorem Changes.invariant {P : Wlans → Prop} (kept : ∀ w w', Change ok fresh w w' → P w → P w')
    (h : Changes ok fresh w w') (start : P w) : P w' := by
  induction h with
  | refl => exact start
  | tail _ last ih => exact kept _ _ last ih

theorem Consistent.change (h : Change ok fresh w w') (consistent : Consistent w) : Consistent w' := by
  cases h with
  | actions action => exact consistent.congr rfl rfl
  | deauthentication a => exact consistent.emit _
  | modify a f lowers =>
    exact consistent.modifyStation a fun st _ => ⟨(lowers st).address, (lowers st).wlan, fun _ => (lowers st).aid⟩
  | insert a absent => exact consistent.insert absent
  | reset st target known there => exact consistent.resetStation known there
  | created a clear => exact consistent.emit _
  | remove a off => exact consistent.remove off
  | assign wlan absent aids empty => exact consistent.assign absent empty
  | erase ref free => exact consistent.erase free
  | authenticate a algorithm number status allowed =>
    exact (consistent.emit _).modifyStation a fun _ _ => ⟨rfl, rfl, fun _ => rfl⟩
  | authenticateLocal on mode => exact consistent.modifyStation _ fun _ _ => ⟨rfl, rfl, fun _ => rfl⟩
  | assignAid on new allowed =>
    refine (consistent.updateBits _ _).modifyStation _ fun st found => ⟨rfl, rfl, fun off => ?_⟩
    obtain rfl := Option.some.inj (on.found.symm.trans found)
    simp [on.on] at off
  | clearAid found allowed =>
    refine consistent.modifyStation _ fun st found' => ⟨rfl, rfl, fun off => ?_⟩
    exact (consistent.unattached _ st found' off).symm
  | associate found authenticated capability status aid allowed =>
    exact (consistent.emit _).modifyStation _ fun _ _ => ⟨rfl, rfl, fun _ => rfl⟩
  | associateLocal on mode capability aid =>
    refine consistent.modifyStation _ fun st found => ⟨rfl, rfl, fun off => ?_⟩
    obtain rfl := Option.some.inj (on.found.symm.trans found)
    simp [on.on] at off
  | authorize on authenticated associate => exact consistent.emit _

theorem Consistent.changes (h : Changes ok fresh w w') (consistent : Consistent w) : Consistent w' :=
  h.invariant (fun _ _ => Consistent.change) consistent

end Wlans

end OpenWifi.AcSession
