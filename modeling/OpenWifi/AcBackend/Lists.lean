import OpenWifi.AcBackend.Events

/-!
# The lists of the backend in the Configuration Status Response

`ac_dfa_state_configure_create_response` counts the items of the AC lists with `j` and reads the item `i`: in the loop
over the radios the number of the radio, and behind it the number of all radios.
-/

namespace OpenWifi.AcBackend

open List Option

variable {α β : Type} {read : String → Option α} {items : List Json} {list : Option Json}

/-- The address of an item: `capwap_address_from_string` and the test of the family are `read`. -/
def acAddress (read : String → Option α) (item : Json) : Option α := (item.getString "ACIPAddress").bind read

/-- The addresses of the JSON list, where the turn `j` reads the item `index j`, and without a list those of the
session. -/
def acList (read : String → Option α) (index : ℕ → ℕ) (list : Option Json) (session : List α) : List α :=
  match list with
  | some (.array items) => (range items.length).filterMap fun j => items[index j]?.bind (acAddress read)
  | _ => session

/-- An AC list in `ac_dfa_state_join_create_response`. -/
def joinList (read : String → Option α) : Option Json → List α → List α := acList read id

/-- An AC list in `ac_dfa_state_configure_create_response`; `i` is the number of radios. -/
def configureList (read : String → Option α) (i : ℕ) : Option Json → List α → List α := acList read fun _ => i

/-- The valid `ReportInterval` of an item for a radio. -/
def reportInterval (radioid : ℕ) (item : Json) : Option ℕ := do
  let id ← item.getInt "RadioID"
  guard (0 < id ∧ id < 256 ∧ id.toNat = radioid)
  let interval ← item.getInt "ReportInterval"
  guard (0 < interval ∧ interval < 65536)
  return interval.toNat

/-- The items of an array; without one no item is read. -/
def itemsOf : Option Json → List Json
  | some (.array items) => items
  | _ => []

/-- The Decryption Error Report Period of the radio `i`, from the first turn `j` that finds an interval. -/
def report (list : Option Json) (interval i radioid : ℕ) : ℕ :=
  ((range (itemsOf list).length).findSome? fun _j => (itemsOf list)[i]?.bind (reportInterval radioid)).getD interval

/-- The answer, and what the session and the request of the WTP have for it. -/
structure Configuring (α β : Type) where
  jsonroot : Json
  acipv4list : List α
  acipv6list : List β
  interval : ℕ
  radios : List ℕ

/-- The lists are those of the Join Response, and each radio gets the first valid interval that is given for it. -/
def Configuring.Alike (c : Configuring α β) (v4 : String → Option α) (v6 : String → Option β) : Prop :=
  configureList v4 c.radios.length (c.jsonroot.get "ACIPv4List") c.acipv4list =
      joinList v4 (c.jsonroot.get "ACIPv4List") c.acipv4list ∧
    configureList v6 c.radios.length (c.jsonroot.get "ACIPv6List") c.acipv6list =
      joinList v6 (c.jsonroot.get "ACIPv6List") c.acipv6list ∧
    ∀ i radioid, c.radios[i]? = some radioid →
      report (c.jsonroot.get "DecryptionErrorReportPeriod") c.interval i radioid =
        ((itemsOf (c.jsonroot.get "DecryptionErrorReportPeriod")).findSome? (reportInterval radioid)).getD c.interval

/-- Every item gives the address that the item with the number `i` gives. -/
def SameAddress (read : String → Option α) (i : ℕ) (items : List Json) : Prop :=
  ∀ item ∈ items, acAddress read item = items[i]?.bind (acAddress read)

theorem range_filterMap_getElem? (f : Json → Option α) (items : List Json) :
    ((range items.length).filterMap fun j => items[j]?.bind f) = items.filterMap f := by
  induction items with
  | nil => rfl
  | cons item items ih => simp [range_succ_eq_map, filterMap_map, ih, filterMap_cons]

theorem configureList_eq_iff (i : ℕ) (session : List α) :
    configureList read i list session = joinList read list session ↔ SameAddress read i (itemsOf list) := by
  rcases list with _ | json
  · simp [configureList, joinList, acList, SameAddress, itemsOf]
  cases json
  case array items =>
    simp only [joinList, configureList, acList, id, range_filterMap_getElem?, SameAddress, itemsOf]
    cases items[i]?.bind (acAddress read) with
    | none =>
      rw [eq_comm]
      simp
    | some address =>
      rw [filterMap_eq_map', map_const', length_range, eq_comm, eq_replicate_iff, filterMap_length_eq_length]
      simp only [mem_filterMap, isSome_iff_exists]
      constructor
      · rintro ⟨valid, same⟩ item mem
        obtain ⟨a, eq⟩ := valid item mem
        rw [eq, same a ⟨item, mem, eq⟩]
      · refine fun same => ⟨fun item mem => ⟨_, same item mem⟩, ?_⟩
        rintro a ⟨item, mem, eq⟩
        exact some.inj (eq.symm.trans (same item mem))
  all_goals simp [configureList, joinList, acList, SameAddress, itemsOf]

/-- The item `i` gives the first valid interval for the radio, or none does, or the first one is the interval of the
session. -/
def ReportsFirst (items : List Json) (interval i radioid : ℕ) : Prop :=
  items[i]?.bind (reportInterval radioid) = items.findSome? (reportInterval radioid) ∨
    items[i]?.bind (reportInterval radioid) = none ∧ items.findSome? (reportInterval radioid) = some interval

theorem report_eq_iff (interval i radioid : ℕ) :
    report list interval i radioid = ((itemsOf list).findSome? (reportInterval radioid)).getD interval ↔
      ReportsFirst (itemsOf list) interval i radioid := by
  rw [report, ReportsFirst]
  cases given : (itemsOf list)[i]?.bind (reportInterval radioid) with
  | none =>
    rw [findSome?_eq_none_iff.2 fun _ _ => rfl]
    cases (itemsOf list).findSome? (reportInterval radioid) <;> simp [eq_comm]
  | some value =>
    obtain ⟨item, found, valid⟩ := bind_eq_some_iff.1 given
    obtain ⟨n, length⟩ := Nat.exists_eq_add_of_lt (List.getElem?_eq_some_iff.1 found).1
    cases first : (itemsOf list).findSome? (reportInterval radioid) with
    | none => simp [findSome?_eq_none_iff.1 first item (mem_of_getElem? found)] at valid
    | some _ => simp [length, range_succ_eq_map]

theorem alike_iff (c : Configuring α β) (v4 : String → Option α) (v6 : String → Option β) : c.Alike v4 v6 ↔
      SameAddress v4 c.radios.length (itemsOf (c.jsonroot.get "ACIPv4List")) ∧
      SameAddress v6 c.radios.length (itemsOf (c.jsonroot.get "ACIPv6List")) ∧
      ∀ i radioid, c.radios[i]? = some radioid →
        ReportsFirst (itemsOf (c.jsonroot.get "DecryptionErrorReportPeriod")) c.interval i radioid := by
  simp [Configuring.Alike, configureList_eq_iff, report_eq_iff]

def twoAddresses : Json :=
  .array [.object [("ACIPAddress", .string "10.0.0.1")], .object [("ACIPAddress", .string "10.0.0.2")]]

def intervalOfSecond : Json := .array [.object [("RadioID", .int 2), ("ReportInterval", .int 30)]]

/-- With one radio the second address is read twice, and an interval for the second radio is not found at its number. -/
theorem addresses_repeated :
    (configureList some 1 (some twoAddresses) [] = ["10.0.0.2", "10.0.0.2"] ∧
      joinList some (some twoAddresses) [] = ["10.0.0.1", "10.0.0.2"] ∧
      ¬Configuring.Alike ⟨.object [("ACIPv4List", twoAddresses)], [], [], 120, [1]⟩
        (some : String → Option String) (some : String → Option String)) ∧
    report (some intervalOfSecond) 120 1 2 = 120 ∧
      ¬Configuring.Alike ⟨.object [("DecryptionErrorReportPeriod", intervalOfSecond)], [], [], 120, [1, 2]⟩
        (some : String → Option String) (some : String → Option String) := by
  refine ⟨⟨rfl, rfl, fun alike => ?_⟩, rfl, fun alike => ?_⟩
  · have same : ["10.0.0.2", "10.0.0.2"] = ["10.0.0.1", "10.0.0.2"] := alike.1
    exact absurd same (by decide)
  · have same : 120 = 30 := alike.2.2 1 2 rfl
    exact absurd same (by decide)

end OpenWifi.AcBackend
