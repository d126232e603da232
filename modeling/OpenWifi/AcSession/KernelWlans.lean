import OpenWifi.AcSession.Dfa

/-!
# The WLANs of the kernel module

`execute_ieee80211_wlan_configuration_addwlan` adds a WLAN to the kernel module first and to the session second, and it
takes nothing back when the session has a WLAN with that BSSID already.
-/

namespace OpenWifi.AcSession

open List Option

def Wlan.key (wlan : Wlan) : ℕ × ℕ × MacAddress := (wlan.radioid, wlan.wlanid, wlan.address)

/-- A response, the request that is rebuilt for it, and whether `ac_kmod_addwlan` succeeds. -/
structure WlanResponse where
  packet : ControlPacket
  request : Option RequestElement
  kmod : Bool

/-- The WLAN that is added to the kernel module. -/
def WlanResponse.added (r : WlanResponse) : Option Wlan :=
  match r.packet.resultcode, r.request, r.packet.assignbssid with
  | true, some (.addWlan addwlan), some assign =>
    if assign.radioid = addwlan.radioid ∧ assign.wlanid = addwlan.wlanid ∧ r.kmod then
      some (Wlans.createBssid assign.bssid addwlan)
    else none
  | _, _, _ => none

/-- The tables of the session, and what was added to the kernel module for it. -/
structure KernelWlans where
  tables : Wlans
  kernel : List (ℕ × ℕ × MacAddress)

namespace KernelWlans

/-- `receive_ieee80211_wlan_configuration_response`. -/
def receive (s : KernelWlans) (r : WlanResponse) : Option KernelWlans :=
  some
    { tables :=
        match r.packet.resultcode, r.request with
        | true, some (.addWlan addwlan) => s.tables.executeAddWlan r.packet addwlan r.kmod
        | _, _ => s.tables
      kernel := s.kernel ++ (r.added.map Wlan.key).toList }

def Agrees (s : KernelWlans) : Prop := ∀ key, key ∈ s.tables.wlans.map Wlan.key ↔ key ∈ s.kernel

/-- The session has no WLAN with the BSSID of the new one and another id. -/
def Unassigned (s : KernelWlans) (r : WlanResponse) : Prop :=
  ∀ wlan ∈ r.added, ∀ other ∈ s.tables.wlans, other.ref = wlan.ref → other.wlanid = wlan.wlanid
  deriving Decidable

variable {s s' : KernelWlans} {r : WlanResponse}

theorem tables_receive (s : Session) (packet : ControlPacket) (env : Env) (kernel : List (ℕ × ℕ × MacAddress)) :
    (receive ⟨s.toWlans, kernel⟩ ⟨packet, s.rebuiltRequest, env.kmod⟩).map tables =
      some (s.receiveWlanConfigurationResponse packet env).toWlans := rfl

theorem tables_eq (next : s.receive r = some s') :
    s'.tables = r.added.elim s.tables s.tables.assignBssid ∧ s'.kernel = s.kernel ++ (r.added.map Wlan.key).toList := by
  cases next
  refine ⟨?_, rfl⟩
  obtain ⟨packet, request, kmod⟩ := r
  cases resultcode : packet.resultcode with
  | false => simp [WlanResponse.added, resultcode]
  | true =>
    cases request with
    | none => simp [WlanResponse.added, resultcode]
    | some element =>
      cases element with
      | addWlan addwlan =>
        cases assign : packet.assignbssid with
        | none => simp [WlanResponse.added, resultcode, assign, Wlans.executeAddWlan]
        | some assign_ =>
          simp only [WlanResponse.added, resultcode, assign, Wlans.executeAddWlan]
          split <;> rfl
      | _ => simp [WlanResponse.added, resultcode]

theorem Agrees.receive (agrees : s.Agrees) (unassigned : s.Unassigned r) (next : s.receive r = some s') :
    s'.Agrees := by
  obtain ⟨tables, kernel⟩ := tables_eq next
  intro key
  rw [tables, kernel]
  cases added : r.added with
  | none => simpa using agrees key
  | some wlan =>
    rw [elim_some, Wlans.assignBssid]
    split
    next there =>
      obtain ⟨other, found⟩ := isSome_iff_exists.1 there
      have mem := mem_of_find?_eq_some found
      have same := of_decide_eq_true (find?_some found :)
      have key_ : other.key = wlan.key := by
        have := unassigned wlan added other mem same
        simp_all [Wlan.ref, Wlan.key]
      have known : wlan.key ∈ s.kernel := (agrees _).1 (key_ ▸ mem_map_of_mem mem)
      simp only [map_some, toList_some, mem_append, mem_singleton, agrees key]
      exact ⟨.inl, fun h => h.elim id fun eq => eq ▸ known⟩
    · simp only [map_append, mem_append, agrees key]
      rfl

/-- In every run of responses that do not give the BSSID of a WLAN another id, the session has the WLANs of the kernel
module. -/
theorem run_agrees {w : Wlans} {rs : List WlanResponse} (wlans : w.wlans = [])
    (unassigned : Along receive Unassigned ⟨w, []⟩ rs) (run : runFrom receive ⟨w, []⟩ rs = some s) : s.Agrees := by
  have start : Agrees ⟨w, []⟩ := by simp [Agrees, wlans]
  exact unassigned.invariant (fun _ _ _ agrees one next => Agrees.receive agrees one next) start run

def response (wlanid : ℕ) : WlanResponse where
  packet := ⟨.wlanConfigurationResponse, 0, true, true, true, some ⟨1, wlanid, 0x20⟩⟩
  request := some (.addWlan ⟨1, wlanid, 0, .openSystem, .splitMac, []⟩)
  kmod := true

theorem run_agrees_two : ∃ s, runFrom receive ⟨⟨[], fun _ => none, [], []⟩, []⟩ [response 1, response 1] = some s ∧
      s.kernel = [(1, 1, 0x20), (1, 1, 0x20)] ∧ s.Agrees :=
  run_and ⟨_, rfl, by decide⟩ fun s run _ => run_agrees rfl (by decide +kernel) run

/-- The second WLAN has the BSSID of the first: the kernel module keeps it and the session does not have it. -/
theorem kernel_keeps_refused :
    ∃ s, runFrom receive ⟨⟨[], fun _ => none, [], []⟩, []⟩ [response 1, response 2] = some s ∧
      (1, 2, 0x20) ∈ s.kernel ∧ (1, 2, 0x20) ∉ s.tables.wlans.map Wlan.key :=
  ⟨_, rfl, by decide +kernel, by decide +kernel⟩

end KernelWlans

end OpenWifi.AcSession
