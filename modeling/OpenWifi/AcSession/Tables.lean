import OpenWifi.AcSession.Management
import Mathlib.Data.List.Nodup

/-!
# The station tables

What the operations on the tables do to a WLAN or a station that is looked up, and the invariant `Consistent` that
ties the two tables together: every station record names a WLAN that is there, and the list of a WLAN holds exactly
the stations that name it.
-/

namespace OpenWifi.AcSession

open List Option Ieee80211

namespace Wlans

variable {w : Wlans}

/-! ## Looking up -/

def lookup (w : Wlans) (ref : WlanRef) : Option Wlan := w.getBssid ref.1 ref.2

theorem lookup_def (w : Wlans) (ref : WlanRef) : w.lookup ref = w.wlans.find? fun wlan => wlan.ref = ref := rfl

variable {wlan : Wlan}

theorem ref_of_lookup {ref : WlanRef} (h : w.lookup ref = some wlan) : wlan.ref = ref := by
  simpa using find?_some h

theorem mem_of_lookup {ref : WlanRef} (h : w.lookup ref = some wlan) : wlan ∈ w.wlans :=
  mem_of_find?_eq_some h

theorem lookup_congr {w' : Wlans} (h : w'.wlans = w.wlans) (ref : WlanRef) : w'.lookup ref = w.lookup ref := by
  rw [lookup_def, lookup_def, h]

variable (a : MacAddress)

@[simp] theorem lookup_modifyStation (f : Station → Station) (ref : WlanRef) :
    (w.modifyStation a f).lookup ref = w.lookup ref := rfl

@[simp] theorem lookup_setStation (st : Station) (ref : WlanRef) : (w.setStation st).lookup ref = w.lookup ref := rfl

theorem stations_modifyStation (f : Station → Station) (b : MacAddress) :
    (w.modifyStation a f).stations b = if b = a then (w.stations b).map f else w.stations b := by
  simp only [modifyStation, Function.update_apply]
  split
  next h => rw [h]
  · rfl

theorem stations_setStation (st : Station) (b : MacAddress) :
    (w.setStation st).stations b = if b = st.address then some st else w.stations b := by
  simp [setStation, Function.update_apply]

theorem lookup_updateWlan {f : Wlan → Wlan} (keeps : ∀ wlan, (f wlan).ref = wlan.ref) (r ref : WlanRef) :
    (w.updateWlan r f).lookup ref = (w.lookup ref).map fun wlan => if ref = r then f wlan else wlan := by
  have same : (fun wlan : Wlan => decide ((if wlan.ref = r then f wlan else wlan).ref = ref)) =
      fun wlan => decide (wlan.ref = ref) := by
    funext wlan
    split
    · rw [keeps]
    · rfl
  rw [lookup_def, lookup_def, updateWlan, find?_map, Function.comp_def, same]
  refine map_congr fun wlan found => ?_
  have named : wlan.ref = ref := by simpa using find?_some found
  rw [named]

variable (station : Station) (target : Option WlanRef)

/-- What happens to the WLAN `ref` when a station is reset. -/
def moved (ref : WlanRef) (wlan : Wlan) : Wlan :=
  let wlan := if station.wlan = some ref then wlan.release station else wlan
  if target = some ref then wlan.enter station.address else wlan

def cleared : Station :=
  { station with
    aid := if station.wlan.isSome then 0 else station.aid
    idtimeout := false
    flags := {}
    wlan := target }

theorem lookup_release (r ref : WlanRef) : (w.updateWlan r fun wlan => wlan.release station).lookup ref =
      (w.lookup ref).map fun wlan => if ref = r then wlan.release station else wlan :=
  lookup_updateWlan (by intro _; rfl) r ref

theorem lookup_enter (r ref : WlanRef) : (w.updateWlan r fun wlan => wlan.enter a).lookup ref =
      (w.lookup ref).map fun wlan => if ref = r then wlan.enter a else wlan :=
  lookup_updateWlan (by intro _; rfl) r ref

theorem lookup_resetStation (ref : WlanRef) :
    (w.resetStation station target).lookup ref = (w.lookup ref).map (moved station target ref) := by
  unfold resetStation moved
  cases station.wlan <;> cases target <;> dsimp only <;>
    simp [lookup_release, lookup_enter, Function.comp_def, eq_comm]

theorem stations_resetStation (b : MacAddress) : (w.resetStation station target).stations b =
      if b = station.address then some (cleared station target) else w.stations b := by
  have same : (w.resetStation station target).stations b = (w.setStation (cleared station target)).stations b := by
    unfold resetStation cleared
    cases station.wlan <;> cases target <;> rfl
  rw [same, stations_setStation]
  rfl

/-! ## Consistent tables -/

/-- The record of every station names a WLAN that is there, without a WLAN it has no identifier, and the WLANs are
distinct and list the stations that name them. -/
structure Consistent (w : Wlans) : Prop where
  keyed : ∀ a st, w.stations a = some st → st.address = a
  attached : ∀ a st ref, w.stations a = some st → st.wlan = some ref → (w.lookup ref).isSome
  unattached : ∀ a st, w.stations a = some st → st.wlan = none → st.aid = 0
  listed : ∀ ref wlan, w.lookup ref = some wlan → wlan.stations.Nodup ∧
    ∀ a, a ∈ wlan.stations ↔ ∃ st, w.stations a = some st ∧ st.wlan = some ref
  distinct : (w.wlans.map Wlan.ref).Nodup

theorem Consistent.known (h : Consistent w) {a : MacAddress} {st : Station}
    (found : w.stations a = some st) : w.stations st.address = some st := by
  rw [h.keyed a st found]
  exact found

theorem Consistent.lookup_of_mem (h : Consistent w) (mem : wlan ∈ w.wlans) : w.lookup wlan.ref = some wlan := by
  cases found : w.lookup wlan.ref with
  | none =>
    have absent := find?_eq_none.1 found wlan mem
    simp at absent
  | some other => rw [inj_on_of_nodup_map h.distinct (mem_of_lookup found) mem (ref_of_lookup found)]

theorem map_ref_updateWlan {f : Wlan → Wlan} (keeps : ∀ wlan, (f wlan).ref = wlan.ref) (r : WlanRef) :
    (w.updateWlan r f).wlans.map Wlan.ref = w.wlans.map Wlan.ref := by
  simp only [updateWlan, List.map_map]
  refine map_congr_left fun wlan _ => ?_
  simp only [Function.comp_apply]
  split
  · exact keeps wlan
  · rfl

theorem map_ref_resetStation : (w.resetStation station target).wlans.map Wlan.ref = w.wlans.map Wlan.ref := by
  unfold resetStation
  cases station.wlan <;> cases target <;> dsimp [setStation]
  · rw [map_ref_updateWlan (by intro _; rfl)]
  · rw [map_ref_updateWlan (by intro _; rfl)]
  · rw [map_ref_updateWlan (by intro _; rfl), map_ref_updateWlan (by intro _; rfl)]

theorem Consistent.congr (h : Consistent w) {w' : Wlans} (stations : w'.stations = w.stations)
    (wlans : w'.wlans = w.wlans) : Consistent w' := by
  obtain ⟨wlans₁, stations₁, action₁, history₁⟩ := w'
  obtain ⟨wlans₂, stations₂, action₂, history₂⟩ := w
  obtain rfl : stations₁ = stations₂ := stations
  obtain rfl : wlans₁ = wlans₂ := wlans
  exact ⟨h.keyed, h.attached, h.unattached, h.listed, h.distinct⟩

theorem Consistent.emit (h : Consistent w) (output : Output) : Consistent (w.emit output) :=
  h.congr rfl rfl

theorem Consistent.modifyStation (h : Consistent w) (a : MacAddress) {f : Station → Station}
    (keeps : ∀ st, w.stations a = some st → (f st).address = st.address ∧ (f st).wlan = st.wlan ∧
      (st.wlan = none → (f st).aid = st.aid)) : Consistent (w.modifyStation a f) := by
  have back : ∀ b st', (w.modifyStation a f).stations b = some st' → ∃ st, w.stations b = some st ∧
      st'.address = st.address ∧ st'.wlan = st.wlan ∧ (st.wlan = none → st'.aid = st.aid) := by
    intro b st' found
    rw [stations_modifyStation] at found
    split at found
    next same =>
      subst same
      obtain ⟨st, old, rfl⟩ := map_eq_some_iff.1 found
      exact ⟨st, old, keeps st old⟩
    · exact ⟨st', found, rfl, rfl, fun _ => rfl⟩
  refine ⟨fun b st' found => ?_, fun b st' ref found on => ?_, fun b st' found off => ?_, ?_, h.distinct⟩
  · obtain ⟨st, old, address, -⟩ := back b st' found
    exact address.trans (h.keyed b st old)
  · obtain ⟨st, old, -, wlan, -⟩ := back b st' found
    exact h.attached b st ref old (wlan ▸ on)
  · obtain ⟨st, old, -, wlan, aid⟩ := back b st' found
    have off : st.wlan = none := wlan ▸ off
    exact (aid off).trans (h.unattached b st old off)
  · intro ref wlan found
    obtain ⟨nodup, iff⟩ := h.listed ref wlan found
    refine ⟨nodup, fun b => (iff b).trans ⟨?_, ?_⟩⟩
    · rintro ⟨st, old, on⟩
      rw [stations_modifyStation]
      split
      next same =>
        subst same
        exact ⟨f st, by rw [old]; rfl, (keeps st old).2.1.trans on⟩
      · exact ⟨st, old, on⟩
    · rintro ⟨st', found, on⟩
      obtain ⟨st, old, -, wlan, -⟩ := back b st' found
      exact ⟨st, old, wlan ▸ on⟩

theorem Consistent.insert (h : Consistent w) {a : MacAddress} (absent : w.stations a = none) :
    Consistent (w.setStation { address := a }) := by
  have cases_ : ∀ b st, (w.setStation { address := a }).stations b = some st →
      b = a ∧ st = { address := a } ∨ w.stations b = some st := by
    intro b st found
    rw [stations_setStation] at found
    split at found
    next same => exact .inl ⟨same, (some.inj found).symm⟩
    · exact .inr found
  refine ⟨fun b st found => ?_, fun b st ref found on => ?_, fun b st found off => ?_, ?_, h.distinct⟩
  · rcases cases_ b st found with ⟨rfl, rfl⟩ | old
    · rfl
    · exact h.keyed b st old
  · rcases cases_ b st found with ⟨rfl, rfl⟩ | old
    · simp at on
    · exact h.attached b st ref old on
  · rcases cases_ b st found with ⟨rfl, rfl⟩ | old
    · rfl
    · exact h.unattached b st old off
  · intro ref wlan found
    obtain ⟨nodup, iff⟩ := h.listed ref wlan found
    refine ⟨nodup, fun b => (iff b).trans ⟨?_, ?_⟩⟩
    · rintro ⟨st, old, on⟩
      have ne : b ≠ a := by rintro rfl; simp [absent] at old
      exact ⟨st, by rw [stations_setStation, if_neg ne]; exact old, on⟩
    · rintro ⟨st, new, on⟩
      rcases cases_ b st new with ⟨rfl, rfl⟩ | old
      · simp at on
      · exact ⟨st, old, on⟩

theorem resetStation_cases {station st : Station} {target : Option WlanRef} {b : MacAddress}
    (found : (w.resetStation station target).stations b = some st) :
    b = station.address ∧ st = cleared station target ∨ b ≠ station.address ∧ w.stations b = some st := by
  rw [stations_resetStation] at found
  split at found
  next same => exact .inl ⟨same, (some.inj found).symm⟩
  next other => exact .inr ⟨other, found⟩

theorem mem_moved {station : Station} {ref : WlanRef} (nodup : wlan.stations.Nodup)
    (on : station.address ∈ wlan.stations → station.wlan = some ref) :
    (moved station target ref wlan).stations.Nodup ∧ ∀ a, a ∈ (moved station target ref wlan).stations ↔
        a = station.address ∧ target = some ref ∨ a ≠ station.address ∧ a ∈ wlan.stations := by
  -- after the release the station is not in the list
  have left : (if station.wlan = some ref then wlan.release station else wlan).stations.Nodup ∧
      ∀ a, a ∈ (if station.wlan = some ref then wlan.release station else wlan).stations ↔
        a ≠ station.address ∧ a ∈ wlan.stations := by
    split
    · exact ⟨nodup.erase _, fun a => nodup.mem_erase_iff⟩
    next off =>
      refine ⟨nodup, fun a => ⟨fun mem => ⟨?_, mem⟩, And.right⟩⟩
      rintro rfl
      exact off (on mem)
  unfold moved
  dsimp only
  split
  next here =>
    refine ⟨List.Nodup.append left.1 (nodup_singleton _) ?_, fun a => ?_⟩
    · simp [left.2]
    · simp only [Wlan.enter, mem_append, left.2, mem_singleton, here, and_true]
      exact or_comm
  next elsewhere =>
    refine ⟨left.1, fun a => ?_⟩
    simp [left.2, elsewhere]

theorem Consistent.resetStation (h : Consistent w) {station : Station} {target : Option WlanRef}
    (known : w.stations station.address = some station) (there : ∀ ref, target = some ref → (w.lookup ref).isSome) :
    Consistent (w.resetStation station target) := by
  refine ⟨fun b st found => ?_, fun b st ref found on => ?_, fun b st found off => ?_, ?_, ?_⟩
  · rcases resetStation_cases found with ⟨rfl, rfl⟩ | ⟨-, old⟩
    · rfl
    · exact h.keyed b st old
  · rw [lookup_resetStation, isSome_map]
    rcases resetStation_cases found with ⟨rfl, rfl⟩ | ⟨-, old⟩
    · exact there ref on
    · exact h.attached b st ref old on
  · rcases resetStation_cases found with ⟨rfl, rfl⟩ | ⟨-, old⟩
    · cases wlan : station.wlan with
      | none => simpa [cleared, wlan] using h.unattached _ station known wlan
      | some ref => simp [cleared, wlan]
    · exact h.unattached b st old off
  · intro ref wlan' found
    rw [lookup_resetStation] at found
    obtain ⟨wlan, old, rfl⟩ := map_eq_some_iff.1 found
    obtain ⟨nodup, iff⟩ := h.listed ref wlan old
    have on : station.address ∈ wlan.stations → station.wlan = some ref := by
      intro mem
      obtain ⟨st, found, on⟩ := (iff _).1 mem
      obtain rfl := some.inj (known.symm.trans found)
      exact on
    obtain ⟨nodup', mem⟩ := mem_moved target nodup on
    refine ⟨nodup', fun a => (mem a).trans ?_⟩
    rw [stations_resetStation, iff]
    split
    next same => simp [same, cleared]
    next other => simp [other]
  · rw [map_ref_resetStation]
    exact h.distinct

theorem Consistent.remove (h : Consistent w) {a : MacAddress} (off : ∀ st, w.stations a = some st → st.wlan = none) :
    Consistent { w with stations := Function.update w.stations a none } := by
  have old : ∀ b st, Function.update w.stations a none b = some st → w.stations b = some st := by
    intro b st found
    rw [Function.update_apply] at found
    split at found
    · simp at found
    · exact found
  refine ⟨fun b st found => h.keyed b st (old b st found),
    fun b st ref found on => h.attached b st ref (old b st found) on,
    fun b st found => h.unattached b st (old b st found), fun ref wlan there => ?_, h.distinct⟩
  obtain ⟨nodup, iff⟩ := h.listed ref wlan there
  refine ⟨nodup, fun b => (iff b).trans ⟨?_, ?_⟩⟩
  · rintro ⟨st, found, on⟩
    refine ⟨st, ?_, on⟩
    have ne : b ≠ a := by
      rintro rfl
      simp [off st found] at on
    exact (Function.update_of_ne ne _ _).trans found
  · rintro ⟨st, found, on⟩
    exact ⟨st, old b st found, on⟩

theorem lookup_append (wlan : Wlan) (ref : WlanRef) : lookup { w with wlans := w.wlans ++ [wlan] } ref =
      (w.lookup ref).or (if wlan.ref = ref then some wlan else none) := by
  simp [lookup_def, find?_append, find?_singleton, decide_eq_true_eq]

theorem Consistent.assign (h : Consistent w) (absent : w.lookup wlan.ref = none)
    (empty : wlan.stations = []) : Consistent { w with wlans := w.wlans ++ [wlan] } := by
  refine ⟨h.keyed, fun b st ref found on => ?_, h.unattached, fun ref wlan' found => ?_, ?_⟩
  · rw [lookup_append]
    have there := h.attached b st ref found on
    obtain ⟨other, eq⟩ := isSome_iff_exists.1 there
    simp [eq]
  · rw [lookup_append] at found
    cases old : w.lookup ref with
    | some other =>
      simp only [old, some_or, some.injEq] at found
      subst found
      exact h.listed ref other old
    | none =>
      simp only [old, none_or] at found
      split at found
      · cases found
        refine ⟨by simp [empty], fun a => ?_⟩
        simp only [empty, not_mem_nil, false_iff, not_exists, not_and]
        intro st found on
        have there := h.attached a st ref found on
        simp [old] at there
      · simp at found
  · rw [map_append, map_singleton, nodup_append]
    refine ⟨h.distinct, by simp, fun ref mem other last => ?_⟩
    rw [mem_singleton] at last
    obtain ⟨old, there, rfl⟩ := mem_map.1 mem
    intro same
    have absent := find?_eq_none.1 absent old there
    simp [same, last] at absent

theorem lookup_erase (distinct : (w.wlans.map Wlan.ref).Nodup) (r ref : WlanRef) :
    lookup { w with wlans := w.wlans.eraseP fun wlan => wlan.ref = r } ref =
      if ref = r then none else w.lookup ref := by
  obtain ⟨wlans, stations, action, history⟩ := w
  simp only [lookup_def]
  induction wlans with
  | nil => simp
  | cons wlan rest ih =>
    rw [map_cons, nodup_cons] at distinct
    by_cases here : wlan.ref = r
    · rw [eraseP_cons_of_pos (by simp [here])]
      split
      next same =>
        rw [find?_eq_none]
        intro other mem
        have ne : other.ref ≠ wlan.ref := fun eq => distinct.1 (eq ▸ mem_map_of_mem mem)
        simp only [same, ← here, decide_eq_true_eq]
        exact ne
      next other => rw [find?_cons_of_neg (by simp only [decide_eq_true_eq, here]; exact fun eq => other eq.symm)]
    · rw [eraseP_cons_of_neg (by simp [here]), find?_cons, find?_cons, ih distinct.2]
      by_cases found : wlan.ref = ref
      · have ne : ref ≠ r := fun eq => here (found.trans eq)
        simp [found, ne]
      · simp [found]

theorem Consistent.erase (h : Consistent w) {r : WlanRef} (free : ∀ a st, w.stations a = some st → st.wlan ≠ some r) :
    Consistent { w with wlans := w.wlans.eraseP fun wlan => wlan.ref = r } := by
  refine ⟨h.keyed, fun b st ref found on => ?_, h.unattached, fun ref wlan found => ?_, ?_⟩
  · have ne : ref ≠ r := by
      rintro rfl
      exact free b st found on
    rw [lookup_erase h.distinct, if_neg ne]
    exact h.attached b st ref found on
  · rw [lookup_erase h.distinct] at found
    split at found
    · simp at found
    · exact h.listed ref wlan found
  · exact h.distinct.sublist ((eraseP_sublist).map _)

theorem lookup_updateBits (r : WlanRef) (bits : List (BitVec 32)) (ref : WlanRef) :
    (w.updateWlan r fun wlan => { wlan with aidbitfield := bits }).lookup ref =
      (w.lookup ref).map fun wlan => if ref = r then { wlan with aidbitfield := bits } else wlan :=
  lookup_updateWlan (by intro _; rfl) r ref

theorem Consistent.updateBits (h : Consistent w) (r : WlanRef) (bits : List (BitVec 32)) :
    Consistent (w.updateWlan r fun wlan => { wlan with aidbitfield := bits }) := by
  refine ⟨h.keyed, fun b st ref found on => ?_, h.unattached, fun ref wlan' found => ?_, ?_⟩
  · rw [lookup_updateBits, isSome_map]
    exact h.attached b st ref found on
  · rw [lookup_updateBits] at found
    obtain ⟨wlan, old, rfl⟩ := map_eq_some_iff.1 found
    have listed := h.listed ref wlan old
    split <;> exact listed
  · rw [map_ref_updateWlan (by intro _; rfl)]
    exact h.distinct

end Wlans

end OpenWifi.AcSession
