import OpenWifi.AcSession.Handlers

/-!
# Roaming between sessions

`ac_stations_create_station` enters its record in `g_ac.authstations` and sends an `AC_SESSION_ACTION_STATION_ROAMING`
to the old owner.
-/

namespace OpenWifi.AcSession

open Option

namespace Wlans

variable {w w' : Wlans}

def Enabled (w : Wlans) : Prop := ∀ a st, w.stations a = some st → st.flags.enabled = true

theorem stations_createStation (h : Consistent w) {radioid : ℕ} {bssid a : MacAddress}
    (created : w.createStation radioid bssid a = some w') :
    (∃ st, w'.stations a = some st ∧ st.flags.enabled = true) ∧ ∀ b, b ≠ a → w'.stations b = w.stations b := by
  cases there : w.getBssid radioid bssid with
  | none => simp [createStation, there] at created
  | some wlan =>
    simp only [createStation, there, some.injEq] at created
    subst created
    have address : ((w.stations a).getD { address := a }).address = a := by
      cases found : w.stations a with
      | none => rfl
      | some st => exact h.keyed a st found
    generalize (w.stations a).getD { address := a } = station at address
    constructor
    · refine ⟨{ cleared station (some wlan.ref) with flags := { enabled := true } }, ?_, rfl⟩
      simp only [emit, stations_modifyStation, if_pos, stations_resetStation, address]
      rfl
    · intro b other
      simp [emit, stations_modifyStation, if_neg other, stations_resetStation, address, stations_setStation]

theorem stations_deauthorizeStation {a b : MacAddress} (other : b ≠ a) :
    (w.deauthorizeStation a).stations b = w.stations b := by
  rw [deauthorizeStation]
  split
  · rfl
  · split
    · simp [sendAction, stations_modifyStation, if_neg other]
    · split
      · simp [emit, stations_modifyStation, if_neg other]
      · rfl

theorem stations_deleteStation (h : Consistent w) (a b : MacAddress) :
    (w.deleteStation a).stations b = if b = a then none else w.stations b := by
  have lowered : Changes (fun _ => True) (fun _ => True) w (w.deauthorizeStation a) := changes_deauthorizeStation w a
  rw [deleteStation, stations_destroyStation (h.changes lowered)]
  split
  · rfl
  next other => exact stations_deauthorizeStation other

theorem stations_stationRoaming (h : Consistent w) (enabled : w.Enabled) (a b : MacAddress) :
    (w.stationRoaming a).stations b = if b = a then none else w.stations b := by
  cases found : w.stations a with
  | none =>
    have absent : w.getStation 0 none a = none := by simp [getStation, found]
    simp only [stationRoaming, absent]
    split
    next same => rw [same, found]
    · rfl
  | some st =>
    have there : w.getStation 0 none a = some st := by simp [getStation, found, enabled a st found]
    simp only [stationRoaming, there]
    exact stations_deleteStation h a b

end Wlans

/-- A call of `ac_stations_create_station` that has found another session than its own; `added` when its record is in
the table since. -/
structure Creating (ι : Type*) where
  address : MacAddress
  old : Option ι
  added : Bool
  deriving DecidableEq

/-- The sessions and the table that they share.  `last`, the session on which a station has been created last, is not in
the source. -/
structure Sessions (ι : Type*) where
  wlans : ι → Wlans
  authstations : MacAddress → Option ι
  roaming : ι → List MacAddress
  creating : ι → Option (Creating ι)
  last : MacAddress → Option ι

namespace Sessions

variable {ι : Type*} [DecidableEq ι]

/-- The steps of the threads: the parts of `ac_stations_create_station`, and a roaming action that is handled. -/
inductive Event (ι : Type*)
  | create (i : ι) (radioid : ℕ) (bssid address : MacAddress)
  | update (i : ι)
  | release (i : ι)
  | roam (i : ι)

/-- The station is created on the session `i`, and the table is read. -/
def create (s : Sessions ι) (i : ι) (address : MacAddress) (wlans : Wlans) : Sessions ι :=
  { s with
    wlans := Function.update s.wlans i wlans
    last := Function.update s.last address (some i)
    creating := if s.authstations address = some i then s.creating else
      Function.update s.creating i (some { address := address, old := s.authstations address, added := false }) }

/-- The record of the session `i` is entered in the table. -/
def update (s : Sessions ι) (i : ι) (c : Creating ι) : Sessions ι :=
  { s with
    authstations := Function.update s.authstations c.address (some i)
    creating := Function.update s.creating i
      (if c.old.isSome then some { c with added := true } else none) }

def release (s : Sessions ι) (i old : ι) (address : MacAddress) : Sessions ι :=
  { s with
    roaming := Function.update s.roaming old (s.roaming old ++ [address])
    creating := Function.update s.creating i none }

/-- The session `i` handles a roaming action; `ac_stations_destroy_station` removes its entry of the table. -/
def roam (s : Sessions ι) (i : ι) (address : MacAddress) (rest : List MacAddress) : Sessions ι :=
  { s with
    wlans := Function.update s.wlans i ((s.wlans i).stationRoaming address)
    authstations :=
      if ((s.wlans i).getStation 0 none address).isSome ∧ s.authstations address = some i then
        Function.update s.authstations address none
      else s.authstations
    roaming := Function.update s.roaming i rest }

def step (s : Sessions ι) : Event ι → Option (Sessions ι)
  | .create i radioid bssid address =>
    match s.creating i with
    | some _ => none
    | none =>
      match (s.wlans i).createStation radioid bssid address with
      | none => some s
      | some wlans => some (s.create i address wlans)
  | .update i =>
    match s.creating i with
    | some c => if c.added then none else some (s.update i c)
    | none => none
  | .release i =>
    match s.creating i with
    | some { address, old := some old, added := true } => some (s.release i old address)
    | _ => none
  | .roam i =>
    match s.creating i, s.roaming i with
    | none, address :: rest => some (s.roam i address rest)
    | _, _ => none

variable {s s' : Sessions ι}

theorem step_cases {e : Event ι} (h : s.step e = some s') :
    (∃ i radioid bssid a, e = .create i radioid bssid a ∧ s.creating i = none ∧
      (s' = s ∨ ∃ w, (s.wlans i).createStation radioid bssid a = some w ∧ s' = s.create i a w)) ∨
    (∃ i c, e = .update i ∧ s.creating i = some c ∧ c.added = false ∧ s' = s.update i c) ∨
    (∃ i a old, e = .release i ∧ s.creating i = some ⟨a, some old, true⟩ ∧ s' = s.release i old a) ∨
    (∃ i a rest, e = .roam i ∧ s.creating i = none ∧ s.roaming i = a :: rest ∧ s' = s.roam i a rest) := by
  cases e with
  | create i radioid bssid a =>
    simp only [step] at h
    split at h
    · simp at h
    next idle =>
      refine .inl ⟨i, radioid, bssid, a, rfl, idle, ?_⟩
      split at h
      · exact .inl (some.inj h).symm
      next w created => exact .inr ⟨w, created, (some.inj h).symm⟩
  | update i =>
    simp only [step] at h
    split at h
    next c busy =>
      split at h
      · simp at h
      next fresh => exact .inr (.inl ⟨i, c, rfl, busy, by simpa using fresh, (some.inj h).symm⟩)
    · simp at h
  | release i =>
    simp only [step] at h
    split at h
    next a old busy => exact .inr (.inr (.inl ⟨i, a, old, rfl, busy, (some.inj h).symm⟩))
    · simp at h
  | roam i =>
    simp only [step] at h
    split at h
    next a rest idle queued => exact .inr (.inr (.inr ⟨i, a, rest, rfl, idle, queued, (some.inj h).symm⟩))
    · simp at h

def Sound (s : Sessions ι) : Prop := ∀ i, (s.wlans i).Consistent ∧ (s.wlans i).Enabled

theorem Sound.replace {s : Sessions ι} (sound : s.Sound) (i : ι) {w : Wlans} (consistent : w.Consistent)
    (enabled : w.Enabled) (j : ι) :
    (Function.update s.wlans i w j).Consistent ∧ (Function.update s.wlans i w j).Enabled := by
  rw [Function.update_apply]
  split
  · exact ⟨consistent, enabled⟩
  · exact sound j

theorem Sound.step {e : Event ι} (sound : s.Sound) (h : s.step e = some s') : s'.Sound := by
  rcases step_cases h with ⟨i, radioid, bssid, a, -, -, rfl | ⟨w, created, rfl⟩⟩ |
    ⟨i, c, -, -, -, rfl⟩ | ⟨i, a, old, -, -, rfl⟩ | ⟨i, a, rest, -, -, -, rfl⟩
  · exact sound
  · obtain ⟨consistent, enabled⟩ := sound i
    obtain ⟨⟨st, here, on⟩, others⟩ := Wlans.stations_createStation consistent created
    have changes : Wlans.Changes (fun _ => True) (fun _ => True) (s.wlans i) w :=
      Wlans.changes_createStation consistent created
    refine sound.replace i (consistent.changes changes) fun b st' found => ?_
    by_cases same : b = a
    · subst same
      rw [← some.inj (here.symm.trans found)]
      exact on
    · exact enabled b st' (others b same ▸ found)
  · exact sound
  · exact sound
  · obtain ⟨consistent, enabled⟩ := sound i
    have changes : Wlans.Changes (fun _ => True) (fun _ => True) (s.wlans i)
        ((s.wlans i).stationRoaming a) := Wlans.changes_stationRoaming consistent a
    refine sound.replace i (consistent.changes changes) fun b st found => ?_
    rw [Wlans.stations_stationRoaming consistent enabled] at found
    split at found
    · simp at found
    · exact enabled b st found

/-- The session `i` has a record of the station. -/
def Holds (s : Sessions ι) (a : MacAddress) (i : ι) : Prop := ((s.wlans i).stations a).isSome

/-- A call for the station is under way on the session `i`. -/
def Takes (s : Sessions ι) (a : MacAddress) (i : ι) (c : Creating ι) : Prop :=
  s.creating i = some c ∧ c.address = a

/-- Every session with a record but the newest one has an action against it or is about to get one, and the table has
the newest session, or is about to. -/
structure Tracked (s : Sessions ι) (a : MacAddress) : Prop where
  newest : ∀ i, s.last a = some i → s.Holds a i ∧ a ∉ s.roaming i
  others : ∀ i, s.Holds a i → s.last a ≠ some i → a ∈ s.roaming i ∨ ∃ j c, s.Takes a j c ∧ c.old = some i
  idle : (∀ i c, ¬ s.Takes a i c) → s.authstations a = s.last a
  taking : ∀ i c, s.Takes a i c → s.last a = some i ∧ c.old ≠ some i ∧ (∀ o, c.old = some o → a ∉ s.roaming o) ∧
    s.authstations a = if c.added then some i else c.old

def Quiet (s : Sessions ι) (a : MacAddress) : Prop := ∀ i, a ∉ s.roaming i ∧ ∀ c, ¬ s.Takes a i c

/-- A station is created on a session only when the roaming actions against it are handled and no other call for it is
under way. -/
def InTurn (s : Sessions ι) : Event ι → Prop
  | .create i _ _ address => address ∉ s.roaming i ∧ ∀ j c, ¬ s.Takes address j c
  | _ => True

variable {s s' : Sessions ι} {a : MacAddress}

omit [DecidableEq ι] in
theorem Tracked.congr (h : s.Tracked a) (holds : ∀ i, s'.Holds a i ↔ s.Holds a i)
    (roaming : ∀ i, a ∈ s'.roaming i ↔ a ∈ s.roaming i) (takes : ∀ i c, s'.Takes a i c ↔ s.Takes a i c)
    (authstations : s'.authstations a = s.authstations a) (last : s'.last a = s.last a) : s'.Tracked a := by
  obtain ⟨newest, others, idle, taking⟩ := h
  constructor
  · simpa only [holds, roaming, last] using newest
  · simpa only [holds, roaming, takes, last] using others
  · simpa only [takes, authstations, last] using idle
  · simpa only [takes, roaming, authstations, last] using taking

omit [DecidableEq ι] in
theorem Tracked.alone (h : s.Tracked a) {i j : ι} {c d : Creating ι} (one : s.Takes a i c)
    (other : s.Takes a j d) : j = i ∧ d = c := by
  have same : j = i := some.inj ((h.taking j d other).1.symm.trans (h.taking i c one).1)
  subst same
  exact ⟨rfl, some.inj (other.1.symm.trans one.1)⟩

theorem takes_updated (s : Sessions ι) (i : ι) (next : Option (Creating ι)) (j : ι) (d : Creating ι) :
    Takes { s with creating := Function.update s.creating i next } a j d ↔
      j = i ∧ next = some d ∧ d.address = a ∨ j ≠ i ∧ s.Takes a j d := by
  by_cases here : j = i
  · subst here
    simp [Takes]
  · simp [Takes, here]

theorem Tracked.update (h : s.Tracked a) {i : ι} {c : Creating ι} (busy : s.creating i = some c)
    (fresh : c.added = false) : (s.update i c).Tracked a := by
  have takes : ∀ j d, (s.update i c).Takes a j d ↔
      j = i ∧ (if c.old.isSome then some { c with added := true } else none) = some d ∧ d.address = a ∨
        j ≠ i ∧ s.Takes a j d := takes_updated s i _
  by_cases here : c.address = a
  · have taker : s.Takes a i c := ⟨busy, here⟩
    obtain ⟨last, ne, untold, auth⟩ := h.taking i c taker
    have auth' : (s.update i c).authstations a = some i := by
      simp [Sessions.update, here]
    have takes' : ∀ j d, (s.update i c).Takes a j d ↔ j = i ∧ c.old.isSome ∧ d = { c with added := true } := by
      intro j d
      rw [takes]
      constructor
      · rintro (⟨rfl, eq, -⟩ | ⟨other, took⟩)
        · split at eq
          next old => exact ⟨rfl, old, (some.inj eq).symm⟩
          · simp at eq
        · exact absurd (h.alone taker took).1 other
      · rintro ⟨rfl, old, rfl⟩
        exact .inl ⟨rfl, if_pos old, here⟩
    refine ⟨h.newest, fun j holds other => ?_, fun _ => auth'.trans last.symm, fun j d took => ?_⟩
    · refine (h.others j holds other).imp id ?_
      rintro ⟨k, d, took, old⟩
      obtain ⟨rfl, rfl⟩ := h.alone taker took
      exact ⟨k, _, (takes' k _).2 ⟨rfl, by simp [old], rfl⟩, old⟩
    · obtain ⟨rfl, old, rfl⟩ := (takes' j d).1 took
      exact ⟨last, ne, untold, auth'⟩
  · refine h.congr (fun _ => .rfl) (fun _ => .rfl) (fun j d => ?_) ?_ rfl
    · rw [takes]
      constructor
      · rintro (⟨rfl, eq, address⟩ | ⟨-, took⟩)
        · split at eq
          · exact absurd (by rw [← address, ← some.inj eq]) here
          · simp at eq
        · exact took
      · intro took
        refine .inr ⟨?_, took⟩
        rintro rfl
        exact here (some.inj (busy.symm.trans took.1) ▸ took.2)
    · exact Function.update_of_ne (Ne.symm here) _ _

theorem holds_replaced (s : Sessions ι) (i : ι) (w : Wlans) (j : ι) :
    Holds { s with wlans := Function.update s.wlans i w } a j ↔
      if j = i then (w.stations a).isSome = true else s.Holds a j := by
  by_cases here : j = i <;> simp [Holds, here]

theorem Tracked.create (h : s.Tracked a) {i : ι} {b : MacAddress} {w : Wlans}
    (here : (w.stations b).isSome) (others : ∀ a, a ≠ b → w.stations a = (s.wlans i).stations a)
    (free : s.creating i = none) (unsent : b ∉ s.roaming i) (untaken : ∀ j c, ¬ s.Takes b j c) :
    (s.create i b w).Tracked a := by
  have holds : ∀ j, (s.create i b w).Holds a j ↔
      if j = i then (w.stations a).isSome = true else s.Holds a j := holds_replaced s i w
  by_cases same : b = a
  · subst same
    have last : (s.create i b w).last b = some i := Function.update_self ..
    have auth : s.authstations b = s.last b := h.idle untaken
    have newest : ∀ j, (s.create i b w).last b = some j →
        (s.create i b w).Holds b j ∧ b ∉ (s.create i b w).roaming j := by
      intro j isLast
      obtain rfl := some.inj (last.symm.trans isLast)
      exact ⟨by rwa [holds, if_pos rfl], unsent⟩
    -- a session that had a record before, and is not the one that was the last then
    have older : ∀ j, (s.create i b w).Holds b j → (s.create i b w).last b ≠ some j →
        s.last b ≠ some j → b ∈ s.roaming j := by
      intro j held notNew notOld
      have ne : j ≠ i := by
        rintro rfl
        exact notNew last
      rw [holds, if_neg ne] at held
      rcases h.others j held notOld with told | ⟨k, c, took, -⟩
      · exact told
      · exact absurd took (untaken k c)
    by_cases own : s.authstations b = some i
    · have takes : ∀ j c, ¬ (s.create i b w).Takes b j c := by
        simpa only [Takes, Sessions.create, if_pos own] using untaken
      refine ⟨newest, fun j held notNew => .inl (older j held notNew ?_), fun _ => ?_, fun j c took => ?_⟩
      · rwa [← auth, own, ← last]
      · exact own.trans last.symm
      · exact absurd took (takes j c)
    · have takes : ∀ j c, (s.create i b w).Takes b j c ↔
          j = i ∧ c = { address := b, old := s.authstations b, added := false } := by
        intro j c
        simp only [Sessions.create, if_neg own]
        refine (takes_updated _ i _ j c).trans ⟨?_, ?_⟩
        · rintro (⟨rfl, eq, -⟩ | ⟨-, took⟩)
          · exact ⟨rfl, (some.inj eq).symm⟩
          · exact absurd took (untaken j c)
        · rintro ⟨rfl, rfl⟩
          exact .inl ⟨rfl, rfl, rfl⟩
      refine ⟨newest, fun j held notNew => ?_, fun none => ?_, fun j c took => ?_⟩
      · by_cases old : s.last b = some j
        · exact .inr ⟨i, _, (takes i _).2 ⟨rfl, rfl⟩, auth.trans old⟩
        · exact .inl (older j held notNew old)
      · exact absurd ((takes i _).2 ⟨rfl, rfl⟩) (none i _)
      · obtain ⟨rfl, rfl⟩ := (takes j c).1 took
        exact ⟨last, own, fun o old => (h.newest o (auth.symm.trans old)).2, rfl⟩
  · refine h.congr (fun j => ?_) (fun _ => .rfl) (fun j c => ?_) rfl
      (Function.update_of_ne (Ne.symm same) _ _)
    · rw [holds, others a (Ne.symm same)]
      split
      next eq => rw [eq, Holds]
      · exact .rfl
    · simp only [Sessions.create]
      split
      · exact .rfl
      · refine (takes_updated _ i _ j c).trans ⟨?_, fun took => .inr ⟨?_, took⟩⟩
        · rintro (⟨-, eq, address⟩ | ⟨-, took⟩)
          · exact absurd (by rw [← address, ← some.inj eq]) same
          · exact took
        · rintro rfl
          simp [Takes, free] at took

theorem Tracked.release (h : s.Tracked a) {i old : ι} {b : MacAddress}
    (busy : s.creating i = some ⟨b, some old, true⟩) : (s.release i old b).Tracked a := by
  have takes : ∀ j c, (s.release i old b).Takes a j c ↔ j ≠ i ∧ s.Takes a j c := by
    intro j c
    refine (takes_updated _ i none j c).trans ?_
    simp [reduceCtorEq, false_and, and_false, false_or]
  have roaming : ∀ j, a ∈ (s.release i old b).roaming j ↔ a ∈ s.roaming j ∨ j = old ∧ a = b := by
    intro j
    simp only [Sessions.release, Function.update_apply]
    split
    next here => simp [here]
    next elsewhere => simp [elsewhere]
  by_cases same : b = a
  · subst same
    have taker : s.Takes b i ⟨b, some old, true⟩ := ⟨busy, rfl⟩
    obtain ⟨last, ne, untold, auth⟩ := h.taking i _ taker
    have untaken : ∀ j c, ¬ (s.release i old b).Takes b j c := by
      intro j c took
      obtain ⟨other, took⟩ := (takes j c).1 took
      exact other (h.alone taker took).1
    refine ⟨fun j isLast => ⟨(h.newest j isLast).1, ?_⟩, fun j held other => .inl ?_,
      fun _ => auth.trans last.symm, fun j c took => absurd took (untaken j c)⟩
    · rw [roaming]
      rintro (told | ⟨rfl, -⟩)
      · exact (h.newest j isLast).2 told
      · exact ne (isLast.symm.trans last)
    · rw [roaming]
      rcases h.others j held other with told | ⟨k, c, took, eq⟩
      · exact .inl told
      · obtain ⟨rfl, rfl⟩ := h.alone taker took
        exact .inr ⟨(some.inj eq).symm, rfl⟩
  · refine h.congr (fun _ => .rfl) (fun j => ?_) (fun j c => ?_) rfl rfl
    · rw [roaming]
      simp [Ne.symm same]
    · rw [takes]
      refine ⟨And.right, fun took => ⟨?_, took⟩⟩
      rintro rfl
      have eq := some.inj (busy.symm.trans took.1)
      exact same (by rw [← took.2, ← eq])

theorem Tracked.roam (h : s.Tracked a) (sound : s.Sound) {i : ι} {b : MacAddress} {rest : List MacAddress}
    (queued : s.roaming i = b :: rest) : (s.roam i b rest).Tracked a := by
  obtain ⟨consistent, enabled⟩ := sound i
  have holds : ∀ j, (s.roam i b rest).Holds a j ↔ s.Holds a j ∧ ¬ (j = i ∧ a = b) := by
    intro j
    refine (holds_replaced s i _ j).trans ?_
    rw [Wlans.stations_stationRoaming consistent enabled]
    by_cases here : j = i
    · subst here
      by_cases same : a = b <;> simp [same, Holds]
    · simp [here]
  have roaming : ∀ j, a ∈ (s.roam i b rest).roaming j ↔ a ∈ if j = i then rest else s.roaming j := by
    intro j
    simp [Sessions.roam, Function.update_apply]
  by_cases same : b = a
  · subst same
    have told : b ∈ s.roaming i := by simp [queued]
    have notLast : s.last b ≠ some i := fun last => (h.newest i last).2 told
    -- the entry of the table is not the one of this session
    have notAuth : s.authstations b ≠ some i := by
      by_cases taken : ∃ j c, s.Takes b j c
      · obtain ⟨j, c, took⟩ := taken
        obtain ⟨last, -, untold, auth⟩ := h.taking j c took
        rw [auth]
        split
        · rwa [← last]
        · exact fun old => untold i old told
      · rw [h.idle (by simpa using taken)]
        exact notLast
    have auth : (s.roam i b rest).authstations b = s.authstations b := by
      simp [Sessions.roam, notAuth, and_false]
    have kept : ∀ j, j ≠ i → (b ∈ (s.roam i b rest).roaming j ↔ b ∈ s.roaming j) := by
      intro j ne
      rw [roaming, if_neg ne]
    refine ⟨fun j last => ?_, fun j held other => ?_, fun untaken => auth.trans (h.idle untaken), fun j c took => ?_⟩
    · have ne : j ≠ i := by
        rintro rfl
        exact notLast last
      rw [holds, kept j ne]
      exact ⟨⟨(h.newest j last).1, fun here => ne here.1⟩, (h.newest j last).2⟩
    · obtain ⟨held, ne⟩ := (holds j).1 held
      rw [kept j fun here => ne ⟨here, rfl⟩]
      exact h.others j held other
    · obtain ⟨last, ne, untold, entry⟩ := h.taking j c took
      refine ⟨last, ne, fun o old => ?_, auth.trans entry⟩
      rw [kept o]
      · exact untold o old
      · rintro rfl
        exact untold o old told
  · refine h.congr (fun j => ?_) (fun j => ?_) (fun _ _ => .rfl) ?_ rfl
    · rw [holds]
      simp [Ne.symm same]
    · rw [roaming]
      split
      next here =>
        rw [here, queued]
        simp [Ne.symm same]
      · exact .rfl
    · simp only [Sessions.roam]
      split
      · exact Function.update_of_ne (Ne.symm same) _ _
      · rfl

theorem Tracked.step {e : Event ι} (h : s.Tracked a) (sound : s.Sound) (inTurn : s.InTurn e)
    (stepped : s.step e = some s') : s'.Tracked a := by
  rcases step_cases stepped with ⟨i, radioid, bssid, b, rfl, free, rfl | ⟨w, created, rfl⟩⟩ |
    ⟨i, c, -, busy, fresh, rfl⟩ | ⟨i, b, old, -, busy, rfl⟩ | ⟨i, b, rest, -, -, queued, rfl⟩
  · exact h
  · obtain ⟨⟨st, here, -⟩, others⟩ := Wlans.stations_createStation (sound i).1 created
    exact h.create (by simp [here]) others free inTurn.1 inTurn.2
  · exact h.update busy fresh
  · exact h.release busy
  · exact h.roam sound queued

structure Initial (s : Sessions ι) : Prop where
  consistent : ∀ i, (s.wlans i).Consistent
  stations : ∀ i a, (s.wlans i).stations a = none
  authstations : ∀ a, s.authstations a = none
  roaming : ∀ i, s.roaming i = []
  creating : ∀ i, s.creating i = none
  last : ∀ a, s.last a = none

omit [DecidableEq ι] in
theorem Initial.sound (h : s.Initial) : s.Sound := by
  intro i
  refine ⟨h.consistent i, fun a st found => ?_⟩
  simp [h.stations i a] at found

omit [DecidableEq ι] in
theorem Initial.tracked (h : s.Initial) (a : MacAddress) : s.Tracked a := by
  refine ⟨fun i last => ?_, fun i holds => ?_, fun _ => ?_, fun i c took => ?_⟩
  · simp [h.last] at last
  · simp [Holds, h.stations] at holds
  · rw [h.authstations, h.last]
  · simp [Takes, h.creating] at took

omit [DecidableEq ι] in
theorem Tracked.settled (h : s.Tracked a) (quiet : s.Quiet a) :
    (∀ i, s.Holds a i ↔ s.last a = some i) ∧ s.authstations a = s.last a := by
  refine ⟨fun i => ⟨fun holds => ?_, fun last => (h.newest i last).1⟩, h.idle fun i => (quiet i).2⟩
  by_contra other
  rcases h.others i holds other with told | ⟨j, c, took, -⟩
  · exact (quiet i).1 told
  · exact (quiet j).2 c took

/-- If stations are created in turn then a station for which nothing is left to do is held by the last session that
created it and by no other one. -/
theorem run_settled {events : List (Event ι)} (start : s.Initial)
    (inTurn : Along step InTurn s events) (run : runFrom step s events = some s') (a : MacAddress)
    (quiet : s'.Quiet a) : (∀ i, s'.Holds a i ↔ s'.last a = some i) ∧ s'.authstations a = s'.last a := by
  have tracked : s'.Sound ∧ s'.Tracked a := by
    refine inTurn.invariant (P := fun s => s.Sound ∧ s.Tracked a) ?_ ⟨start.sound, start.tracked a⟩ run
    intro s e s' ⟨sound, tracked⟩ turn stepped
    exact ⟨sound.step stepped, tracked.step sound turn stepped⟩
  exact tracked.2.settled quiet

omit [DecidableEq ι] in
theorem quiet_of_idle (idle : ∀ i, s.roaming i = [] ∧ s.creating i = none) (a : MacAddress) : s.Quiet a := by
  intro i
  simp [Takes, idle i]

def onlyGuest : Wlans where
  wlans := [Wlans.createBssid 0x20 Session.guestWlan]
  stations := fun _ => none
  action := []
  history := []

def pair : Sessions Bool where
  wlans := fun _ => onlyGuest
  authstations := fun _ => none
  roaming := fun _ => []
  creating := fun _ => none
  last := fun _ => none

theorem consistent_onlyGuest : onlyGuest.Consistent := by
  refine ⟨by simp [onlyGuest], by simp [onlyGuest], by simp [onlyGuest], fun ref wlan found => ?_, by simp [onlyGuest]⟩
  have mem := Wlans.mem_of_lookup found
  simp only [onlyGuest, List.mem_singleton] at mem
  subst mem
  simp [onlyGuest, Wlans.createBssid]

theorem initial_pair : pair.Initial :=
  ⟨fun _ => consistent_onlyGuest, fun _ _ => rfl, fun _ => rfl, fun _ => rfl, fun _ => rfl, fun _ => rfl⟩

def roamed : List (Event Bool) :=
  [.create false 1 0x20 1, .update false, .create true 1 0x20 1, .update true, .release true, .roam false]

theorem run_settled_roamed : ∃ s', runFrom step pair roamed = some s' ∧ s'.last 1 = some true ∧
    (∀ i, s'.Holds 1 i ↔ s'.last 1 = some i) ∧ s'.authstations 1 = s'.last 1 := by
  obtain ⟨s', run, last, idle⟩ : ∃ s', runFrom step pair roamed = some s' ∧ s'.last 1 = some true ∧
      ∀ i, s'.roaming i = [] ∧ s'.creating i = none := ⟨_, rfl, by decide +kernel⟩
  have inTurn : Along step InTurn pair roamed := by
    have first := quiet_of_idle (s := pair) (fun _ => ⟨rfl, rfl⟩) 1
    refine ⟨⟨(first false).1, fun j => (first j).2⟩, fun s₁ h₁ => ⟨trivial, fun s₂ h₂ => ?_⟩⟩
    cases h₁
    have idle : ∀ i, s₂.roaming i = [] ∧ s₂.creating i = none := by
      cases h₂
      decide +kernel
    have second := quiet_of_idle idle 1
    exact ⟨⟨(second true).1, fun j => (second j).2⟩, fun _ _ =>
      ⟨trivial, fun _ _ => ⟨trivial, fun _ _ => ⟨trivial, fun _ _ => trivial⟩⟩⟩⟩
  exact ⟨s', run, last, run_settled initial_pair inTurn run 1 (quiet_of_idle idle 1)⟩

/-- A station that comes back before the first session has handled the action: both sessions delete their records, and
the station is lost. -/
theorem roaming_back_loses_station : ∃ s', runFrom step pair
    [.create false 1 0x20 1, .update false, .create true 1 0x20 1, .update true, .release true,
      .create false 1 0x20 1, .update false, .release false, .roam false, .roam true] = some s' ∧
    s'.Quiet 1 ∧ s'.last 1 = some false ∧ (∀ i, ¬ s'.Holds 1 i) ∧ s'.authstations 1 = none := by
  obtain ⟨s', run, idle, last, lost, auth⟩ : ∃ s', runFrom step pair
      [.create false 1 0x20 1, .update false, .create true 1 0x20 1, .update true, .release true,
        .create false 1 0x20 1, .update false, .release false, .roam false, .roam true] = some s' ∧
      (∀ i, s'.roaming i = [] ∧ s'.creating i = none) ∧ s'.last 1 = some false ∧
      (∀ i, ¬ ((s'.wlans i).stations 1).isSome) ∧ s'.authstations 1 = none :=
    ⟨_, rfl, by decide +kernel⟩
  exact ⟨s', run, quiet_of_idle idle 1, last, lost, auth⟩

end Sessions

end OpenWifi.AcSession
