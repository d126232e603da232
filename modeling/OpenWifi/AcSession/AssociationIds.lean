import OpenWifi.AcSession.Handlers
import OpenWifi.Lib.Allocation

/-!
# Association identifiers of stations

`Accounted` says that the bit field of a WLAN in split MAC mode agrees with the records of its stations.
-/

namespace OpenWifi.AcSession

open Option Ieee80211
open Function (update update_apply update_eq_self)

namespace Wlans

variable {w w' : Wlans} {a : MacAddress}

def held (w : Wlans) (ref : WlanRef) (a : MacAddress) : ℕ :=
  match w.stations a with
  | some st => if st.wlan = some ref then st.aid else 0
  | none => 0

def Accounted (w : Wlans) : Prop :=
  ∀ ref wlan, w.lookup ref = some wlan → wlan.macmode = .splitMac →
    Accounts (AidSet wlan.aidbitfield) (w.held ref) ∧ ∀ a, w.held ref a ≤ aidMaxValue

/-! ## What is held -/

variable {st : Station}

theorem held_of_found (found : w.stations a = some st) (ref : WlanRef) :
    w.held ref a = if st.wlan = some ref then st.aid else 0 := by
  rw [held, found]

variable {wlan : Wlan}

theorem On.held_eq (on : w.On a st wlan) : w.held wlan.ref a = st.aid := by
  rw [held_of_found on.found, if_pos on.on]

theorem On.held_other (on : w.On a st wlan) {ref : WlanRef} (other : ref ≠ wlan.ref) : w.held ref a = 0 := by
  rw [held_of_found on.found, if_neg]
  intro same
  exact other (some.inj (same.symm.trans on.on))

theorem held_congr (stations : w'.stations = w.stations) : w'.held = w.held := by
  funext ref b
  rw [held, held, stations]

theorem held_of_update (ref : WlanRef) (others : ∀ b, b ≠ a → w'.stations b = w.stations b) :
    w'.held ref = update (w.held ref) a (w'.held ref a) := by
  funext b
  rw [update_apply]
  split
  next same => rw [same]
  next other => rw [held, held, others b other]

variable {f : Station → Station}

theorem held_modifyStation (keeps : ∀ st, w.stations a = some st → (f st).wlan = st.wlan ∧ (f st).aid = st.aid) :
    (w.modifyStation a f).held = w.held := by
  funext ref b
  rw [held, held, stations_modifyStation]
  by_cases same : b = a
  · subst same
    cases found : w.stations b with
    | none => simp
    | some st =>
      obtain ⟨wlan, aid⟩ := keeps st found
      simp [wlan, aid]
  · rw [if_neg same]

theorem Accounted.congr (h : Accounted w) (wlans : w'.wlans = w.wlans) (same : w'.held = w.held) : Accounted w' := by
  intro ref wlan found mode
  rw [same]
  exact h ref wlan ((lookup_congr wlans ref).symm.trans found) mode

/-! ## The changes -/

theorem aidSet_moved {target : Option WlanRef} {ref : WlanRef} (mode : wlan.macmode = .splitMac) (n : ℕ) :
    AidSet (moved st target ref wlan).aidbitfield n ↔
      AidSet wlan.aidbitfield n ∧ (n = st.aid → st.wlan ≠ some ref) := by
  have bits : (moved st target ref wlan).aidbitfield =
      if st.wlan = some ref then (wlan.release st).aidbitfield else wlan.aidbitfield := by
    unfold moved
    dsimp only
    split <;> split <;> rfl
  rw [bits]
  split
  next on =>
    by_cases zero : st.aid = 0
    · simp only [Wlan.release, zero, ne_eq, not_true_eq_false, false_and, if_false, on]
      exact ⟨fun set => ⟨set, fun eq => absurd eq set.1⟩, And.left⟩
    · simp [Wlan.release, ne_eq, zero, not_false_eq_true, mode, and_self, on, aidSet_aidFree zero,
        not_true_eq_false, imp_false]
  next off => simp [off]

theorem macmode_moved (st : Station) (target : Option WlanRef) (ref : WlanRef) (wlan : Wlan) :
    (moved st target ref wlan).macmode = wlan.macmode := by
  unfold moved
  dsimp only
  split <;> split <;> rfl

theorem held_resetStation (h : Consistent w) (known : w.stations st.address = some st)
    (target : Option WlanRef)
    (ref : WlanRef) : (w.resetStation st target).held ref = update (w.held ref) st.address 0 := by
  have zero : (cleared st target).aid = 0 := by
    cases wlan : st.wlan with
    | none => simpa [cleared, wlan] using h.unattached _ st known wlan
    | some ref => simp [cleared, wlan]
  have others : ∀ b, b ≠ st.address → (w.resetStation st target).stations b = w.stations b := by
    intro b other
    rw [stations_resetStation, if_neg other]
  rw [held_of_update ref others]
  congr 1
  rw [held, stations_resetStation, if_pos rfl]
  simp [zero]

theorem Accounted.resetStation (h : Accounted w) (consistent : Consistent w)
    (known : w.stations st.address = some st) (target : Option WlanRef) : Accounted (w.resetStation st target) := by
  intro ref wlan' found mode
  rw [lookup_resetStation] at found
  obtain ⟨wlan, old, rfl⟩ := map_eq_some_iff.1 found
  rw [macmode_moved] at mode
  obtain ⟨accounts, bound⟩ := h ref wlan old mode
  rw [held_resetStation consistent known]
  refine ⟨accounts.release st.address fun n hn => ?_, fun b => ?_⟩
  · rw [aidSet_moved mode, held_of_found known]
    split <;> simp_all
  · rw [update_apply]
    split
    · exact Nat.zero_le _
    · exact bound b

theorem Accounted.assign (h : Accounted w) (consistent : Consistent w) (aids : wlan.aidbitfield = noAids) :
    Accounted { w with wlans := w.wlans ++ [wlan] } := by
  intro ref wlan' found mode
  have same : held { w with wlans := w.wlans ++ [wlan] } ref = w.held ref := rfl
  rw [same]
  rw [lookup_append] at found
  cases old : w.lookup ref with
  | some other =>
    simp only [old, some_or, some.injEq] at found
    exact h ref wlan' (found ▸ old) mode
  | none =>
    simp only [old, none_or] at found
    split at found
    · cases found
      -- no station names a WLAN that was not there
      have zero : ∀ a, w.held ref a = 0 := by
        intro a
        cases record : w.stations a with
        | none => rw [held, record]
        | some st =>
          rw [held_of_found record, if_neg]
          intro on
          have there := consistent.attached a st ref record on
          simp [old] at there
      refine ⟨Accounts.of_empty (fun n => ?_) zero, fun a => by rw [zero]; exact Nat.zero_le _⟩
      rw [aids]
      exact not_aidSet_noAids n
    · simp at found

theorem held_modifyAid (found : w.stations a = some st) {aid : ℕ}
    (wlan : (f st).wlan = st.wlan) (new : (f st).aid = aid) (ref : WlanRef) :
    (w.modifyStation a f).held ref = update (w.held ref) a (if st.wlan = some ref then aid else 0) := by
  have others : ∀ b, b ≠ a → (w.modifyStation a f).stations b = w.stations b := by
    intro b other
    rw [stations_modifyStation, if_neg other]
  rw [held_of_update ref others]
  congr 1
  rw [held, stations_modifyStation, if_pos rfl, found]
  simp [wlan, new]

theorem On.held_modifyAid_other (on : w.On a st wlan)
    (keeps : (f st).wlan = st.wlan) {ref : WlanRef} (other : ref ≠ wlan.ref) :
    (w.modifyStation a f).held ref = w.held ref := by
  have elsewhere : st.wlan ≠ some ref := by
    intro same
    exact other (some.inj (same.symm.trans on.on))
  rw [held_modifyAid on.found keeps rfl ref, if_neg elsewhere, ← on.held_other other, update_eq_self]

theorem Accounted.assignAid (h : Accounted w) (on : w.On a st wlan)
    {bits : List (BitVec 32)} {aid : ℕ} (new : aidCreate wlan.aidbitfield = (bits, some aid)) (without : st.aid = 0) :
    Accounted ((w.updateWlan wlan.ref fun wlan => { wlan with aidbitfield := bits }).modifyStation a
      fun st => { st with aid := aid }) := by
  intro ref wlan' found mode
  rw [lookup_modifyStation, lookup_updateBits] at found
  have same : held (w.updateWlan wlan.ref fun wlan => { wlan with aidbitfield := bits }) = w.held := held_congr rfl
  by_cases here : ref = wlan.ref
  · subst here
    rw [on.there] at found
    obtain rfl : { wlan with aidbitfield := bits } = wlan' := by simpa using found
    obtain ⟨accounts, bound⟩ := h wlan.ref wlan on.there mode
    obtain ⟨positive, small, free, taken⟩ := aidCreate_eq_some new
    rw [held_modifyAid (f := fun st => { st with aid := aid }) (by exact on.found) rfl rfl, same, if_pos on.on]
    refine ⟨accounts.assign (on.held_eq.trans without) free positive fun m _ => taken m, fun b => ?_⟩
    rw [update_apply]
    split
    · exact small
    · exact bound b
  · have elsewhere : st.wlan ≠ some ref := fun eq => here (some.inj (eq.symm.trans on.on))
    rw [held_modifyAid (f := fun st => { st with aid := aid }) (by exact on.found) rfl rfl, same,
      if_neg elsewhere, ← on.held_other here, update_eq_self]
    obtain ⟨old, there, rfl⟩ := map_eq_some_iff.1 found
    rw [if_neg here] at mode ⊢
    exact h ref old there mode

theorem Accounted.associateLocal (h : Accounted w) (on : w.On a st wlan)
    (local_ : wlan.macmode = .localMac) (keeps : (f st).wlan = st.wlan) : Accounted (w.modifyStation a f) := by
  intro ref wlan' found mode
  rw [lookup_modifyStation] at found
  by_cases here : ref = wlan.ref
  · obtain rfl := some.inj (on.there.symm.trans (here ▸ found))
    simp [local_] at mode
  · rw [on.held_modifyAid_other keeps here]
    exact h ref wlan' found mode

theorem Accounted.change (change : Change (fun _ => True) (· = 0) w w') (consistent : Consistent w)
    (h : Accounted w) : Accounted w' := by
  cases change with
  | actions | deauthentication | created | authorize => exact h.congr rfl rfl
  | modify a f lowers => exact h.congr rfl (held_modifyStation fun st _ => ⟨(lowers st).wlan, (lowers st).aid⟩)
  | insert a absent =>
    refine h.congr rfl (funext fun ref => funext fun b => ?_)
    rw [held, held, stations_setStation]
    by_cases same : b = a
    · subst same
      simp [absent]
    · simp [same]
  | reset st target known there => exact h.resetStation consistent known target
  | remove a off =>
    refine h.congr rfl (funext fun ref => funext fun b => ?_)
    simp only [held, update_apply]
    by_cases same : b = a
    · subst same
      cases found : w.stations b with
      | none => simp
      | some st => simp [off st found]
    · simp [same]
  | assign wlan absent aids empty => exact h.assign consistent aids
  | erase r free =>
    intro ref wlan found mode
    rw [lookup_erase consistent.distinct] at found
    split at found
    · simp at found
    · exact h ref wlan found mode
  | authenticate a => exact h.congr rfl (held_modifyStation fun _ _ => ⟨rfl, rfl⟩)
  | authenticateLocal on mode => exact h.congr rfl (held_modifyStation fun _ _ => ⟨rfl, rfl⟩)
  | assignAid on new without => exact h.assignAid on new without
  | clearAid found without =>
    refine h.congr rfl (held_modifyStation fun st found' => ⟨rfl, ?_⟩)
    obtain rfl := some.inj (found.symm.trans found')
    exact without.symm
  | associate found => exact h.congr rfl (held_modifyStation fun _ _ => ⟨rfl, rfl⟩)
  | associateLocal on mode => exact h.associateLocal on mode rfl

/-! ## The accounts of a WLAN -/

def AidsExact (w : Wlans) : Prop :=
  ∀ wlan ∈ w.wlans, wlan.macmode = .splitMac → (∀ aid, AidSet wlan.aidbitfield aid ↔
      aid ≠ 0 ∧ ∃ a ∈ wlan.stations, ∃ st, w.stations a = some st ∧ st.aid = aid) ∧
    (∀ a ∈ wlan.stations, ∀ b ∈ wlan.stations, ∀ sta stb, w.stations a = some sta →
      w.stations b = some stb → sta.aid = stb.aid → sta.aid ≠ 0 → a = b) ∧
    ∀ a ∈ wlan.stations, ∀ st, w.stations a = some st → st.aid ≤ aidMaxValue

theorem Accounted.aidsExact (h : Accounted w) (consistent : Consistent w) : AidsExact w := by
  intro wlan mem mode
  have there := consistent.lookup_of_mem mem
  obtain ⟨accounts, bound⟩ := h wlan.ref wlan there mode
  obtain ⟨-, listed⟩ := consistent.listed wlan.ref wlan there
  -- the stations in the list are those that hold something here
  have on : ∀ a ∈ wlan.stations, ∀ st, w.stations a = some st → w.held wlan.ref a = st.aid := by
    intro a mem st found
    obtain ⟨st', found', on⟩ := (listed a).1 mem
    obtain rfl := some.inj (found.symm.trans found')
    rw [held_of_found found, if_pos on]
  refine ⟨fun aid => ⟨fun set => ⟨set.1, ?_⟩, ?_⟩, ?_, ?_⟩
  · obtain ⟨a, holds⟩ := (accounts.exact_iff aid set.1).1 set
    cases found : w.stations a with
    | none =>
      rw [held, found] at holds
      exact absurd holds.symm set.1
    | some st =>
      rw [held_of_found found] at holds
      split at holds
      next here => exact ⟨a, (listed a).2 ⟨st, found, here⟩, st, found, holds⟩
      · exact absurd holds.symm set.1
  · rintro ⟨positive, a, mem, st, found, rfl⟩
    exact (accounts.exact_iff st.aid positive).2 ⟨a, on a mem st found⟩
  · intro a ha b hb sta stb founda foundb same positive
    rw [← on a ha sta founda] at same positive
    rw [← on b hb stb foundb] at same
    exact accounts.unique a b same positive
  · intro a mem st found
    rw [← on a mem st found]
    exact bound a

end Wlans

namespace Session

open Wlans

variable {s s' : Session}

def AssociatesAfresh (s : Session) : Event → Prop
  | .execute _ => ∀ radioid mgmt rest capability listeninterval ies st wlan,
      s.action = .recvIeee80211MgmtPacket radioid mgmt :: rest → mgmt.bssid ≠ mgmt.sa → mgmt.bssid = mgmt.da →
      mgmt.body = .associationRequest capability listeninterval → mgmt.ies = some ies →
      s.stationAndWlan radioid mgmt.bssid mgmt.sa = some (st, wlan) → st.flags.authenticated →
      wlan.macmode = .splitMac → ies.rates.isSome → isValidSsid wlan.ssid ies.ssid → st.aid = 0
  | _ => True

theorem AssociatesAfresh.admits {e : Event} (h : s.AssociatesAfresh e) : s.Admits (fun _ => True) (· = 0) e := by
  cases e with
  | execute env =>
    intro radioid mgmt rest action fromStation toWlan ies some
    cases body : mgmt.body with
    | associationRequest capability listeninterval =>
      intro st wlan known authenticated mode rates
      exact ⟨h radioid mgmt rest capability listeninterval ies st wlan action fromStation toWlan body some known
        authenticated mode rates, fun _ => trivial⟩
    | authentication => exact fun _ _ _ _ => trivial
    | _ => trivial
  | _ => trivial

theorem consistent_of_empty {w : Wlans} (wlans : w.wlans = []) (stations : ∀ a, w.stations a = none) :
    Consistent w := by
  refine ⟨?_, ?_, ?_, ?_, ?_⟩ <;> simp [lookup_def, wlans, stations]

/-- In a run in which no station with an identifier is given another one, the identifiers of every WLAN
are accounted for in every state. -/
theorem run_aidsExact {events : List Event} (wlans : s.wlans = []) (stations : ∀ a, s.stations a = none)
    (afresh : Along step AssociatesAfresh s events) (run : runFrom step s events = some s') : AidsExact s'.toWlans := by
  have start : Accounted s.toWlans := by
    intro ref wlan found
    simp [lookup_def, wlans] at found
  have admits : Along step (Admits (fun _ => True) (· = 0)) s events :=
    afresh.imp (P := fun _ => True) (fun _ _ _ _ _ _ => trivial) (fun _ _ _ h => h.admits) trivial
  obtain ⟨consistent, accounted⟩ := run_tables (fun _ _ change consistent h => h.change change consistent)
    (consistent_of_empty wlans stations) start admits run
  exact accounted.aidsExact consistent

def guestFrame (body : MgmtBody) : Mgmt where
  da := 0x20
  sa := 1
  bssid := 0x20
  body := body
  ies := some { ssid := some [103], supportedRates := some [2, 4], extendedSupportedRates := none }

def guestEvents (bodies : List MgmtBody) : List Event :=
  [.sendAction (.addWlan guestWlan), .execute agreeable,
    .receive { emptyMessage .wlanConfigurationResponse 0 with assignbssid := some ⟨1, 1, 0x20⟩ }
      agreeable] ++
  (bodies.map fun body => .sendAction (.recvIeee80211MgmtPacket 1 (guestFrame body))) ++
  bodies.map fun _ => .execute agreeable

/-- A station authenticates and associates: its identifier is the one that is taken. -/
theorem run_aidsExact_associate :
    ∃ s', runFrom step started (guestEvents [.authentication 0 1 0, .associationRequest 0 0]) = some s' ∧
      (s'.stations 1).map Station.aid = some 1 ∧ AidsExact s'.toWlans := by
  refine run_and ⟨_, rfl, by decide +kernel⟩ fun s' run _ => run_aidsExact (s := started) rfl (fun _ => rfl) ?_ run
  -- only the last step is a request for association
  refine ⟨trivial, fun s₁ h₁ => ⟨?_, fun s₂ h₂ => ⟨trivial, fun s₃ h₃ => ⟨trivial, fun s₄ h₄ =>
    ⟨trivial, fun s₅ h₅ => ⟨?_, fun s₆ h₆ => ⟨?_, fun _ _ => trivial⟩⟩⟩⟩⟩⟩⟩
  all_goals
    intro radioid mgmt rest capability listeninterval ies st wlan action _ _ body _ known
    cases h₁
  · exact absurd (List.cons.inj action).1 (by simp)
  · cases h₂
    cases h₃
    cases h₄
    cases h₅
    obtain ⟨rfl, rfl⟩ := Action.recvIeee80211MgmtPacket.inj (List.cons.inj action).1
    exact absurd body (by simp [guestFrame])
  · cases h₂
    cases h₃
    cases h₄
    cases h₅
    cases h₆
    obtain ⟨rfl, rfl⟩ := Action.recvIeee80211MgmtPacket.inj (List.cons.inj action).1
    have zero := congrArg (Option.map fun known => known.1.aid) known
    exact fun _ _ _ _ => (some.inj zero).symm

/-- The second association gives the station the identifier 2, and 1 stays taken. -/
theorem associate_twice_leaks_aid :
    ∃ s', runFrom step started (guestEvents [.authentication 0 1 0, .associationRequest 0 0,
        .associationRequest 0 0]) = some s' ∧ (s'.stations 1).map Station.aid = some 2 ∧ ¬ AidsExact s'.toWlans := by
  refine run_and ⟨_, rfl, by decide +kernel⟩ fun s' run aid exact_ => ?_
  obtain ⟨wlan, mem, mode, stations, set⟩ :
      ∃ wlan ∈ s'.wlans, wlan.macmode = .splitMac ∧ wlan.stations = [1] ∧ AidSet wlan.aidbitfield 1 := by
    cases run
    exact ⟨_, List.mem_singleton_self _, rfl, by decide +kernel, by decide +kernel⟩
  obtain ⟨-, a, listed, st, found, one⟩ := ((exact_ wlan mem mode).1 1).1 set
  obtain rfl : a = 1 := by simpa [stations] using listed
  rw [found, map_some, one] at aid
  simp at aid

/-- Whatever frames come and timers run, the stations and the WLANs name each other. -/
theorem run_keeps_tables {events : List Event} (wlans : s.wlans = []) (stations : ∀ a, s.stations a = none)
    (run : runFrom step s events = some s') : Consistent s'.toWlans := by
  refine runFrom_invariant (P := fun s => Consistent s.toWlans) (fun s e s' h next => ?_)
    (consistent_of_empty wlans stations) run
  have admits : s.Admits (fun _ => True) (fun _ => True) e := by
    cases e with
    | execute env =>
      intro _ mgmt _ _ _ _ _ _
      cases mgmt.body <;> simp
    | _ => trivial
  exact (changes_step h admits next).invariant (fun _ _ change h => h.change change) h

theorem run_keeps_tables_associate :
    ∃ s', runFrom step started (guestEvents [.authentication 0 1 0, .associationRequest 0 0]) = some s' ∧
      (s'.stations 1).isSome ∧ Consistent s'.toWlans :=
  run_and ⟨_, rfl, by decide +kernel⟩ fun _ run _ => run_keeps_tables (s := started) rfl (fun _ => rfl) run

end Session

end OpenWifi.AcSession
