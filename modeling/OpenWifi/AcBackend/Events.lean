import OpenWifi.AcSession.Lifecycle

/-!
# Events of the backend

`ac_backend_soap_waitevent` hands the events of an array to `ac_backend_parsing_event` one after another.  The first
event that cannot be executed ends the array, and `ac_backend_run` takes the connection for lost.
-/

namespace OpenWifi.AcBackend

open List Option AcSession

/-- A value of json-c; a text is the C string that `json_object_get_string` gives. -/
inductive Json
  | null
  | boolean (b : Bool)
  | double (digits : String)
  | int (n : ℤ)
  | string (s : String)
  | array (items : List Json)
  | object (fields : List (String × Json))

namespace Json

variable (json : Json) (key : String)

/-- `compat_json_object_object_get`. -/
def get : Option Json :=
  match json with
  | object fields => fields.lookup key
  | _ => none

def getString : Option String :=
  (json.get key).bind fun | string s => some s | _ => none

/-- `json_object_get_int` of a number, which has 64 bits. -/
def getInt : Option ℤ :=
  (json.get key).bind fun | int n => some (max (-2 ^ 31) (min n (2 ^ 31 - 1))) | _ => none

def getBoolean : Option Bool :=
  (json.get key).bind fun | boolean b => some b | _ => none

def getObject : Option Json :=
  (json.get key).bind fun | object fields => some (object fields) | _ => none

end Json

/-- What is sent to the session of a WTP, with `struct ac_notify_reset_t` and `struct ac_notify_addwlan_t`. -/
inductive Command
  | close
  | resetWtp (vendor : BitVec 32) (name : String)
  | addwlan (radioid wlanid : BitVec 8) (capability : BitVec 16) (qos authmode macmode tunnelmode : BitVec 8)
      (suppressssid : Bool) (ssid : String)

/-- The event that the session notifies the backend of when the command is done. -/
def Command.notify (idevent : String) : Command → NotifyEvent
  | close | resetWtp _ _ => ⟨idevent, notifyActionChangeState, SessionState.dead.number⟩
  | addwlan .. => ⟨idevent, notifyActionReceiveResponseControlmessage, MessageType.wlanConfigurationResponse.number⟩

variable (known : String → Bool) (params : Json)

/-- `ac_backend_parsing_closewtpsession_event`; `none` is the result -1. -/
def parsingClosewtpsessionEvent : Option (String × Command) := do
  let wtpid ← params.getString "WTPId"
  guard (known wtpid)
  return (wtpid, .close)

/-- `ac_backend_parsing_resetwtp_event`. -/
def parsingResetwtpEvent : Option (String × Command) := do
  let wtpid ← params.getString "WTPId"
  let image ← params.getObject "ImageIdentifier"
  let vendor ← image.getInt "Vendor"
  let name ← image.getString "Data"
  guard (known wtpid ∧ name ≠ "")
  return (wtpid, .resetWtp (.ofInt 32 vendor) name)

/-- `ac_backend_parsing_addwlan_event`. -/
def parsingAddwlanEvent : Option (String × Command) := do
  let wtpid ← params.getString "WTPID"
  let radioid ← params.getInt "RadioID"
  let wlanid ← params.getInt "WLANID"
  let capability ← params.getInt "Capability"
  let qos ← params.getInt "DefaultQoS"
  let authtype ← params.getInt "AuthType"
  let macmode ← params.getInt "MACMode"
  let tunnelmode ← params.getInt "TunnelMode"
  let hidessid ← params.getBoolean "SuppressSSID"
  let ssid ← params.getString "SSID"
  guard (ssid.utf8ByteSize ≤ 32 ∧ known wtpid)
  return (wtpid, .addwlan (.ofInt 8 radioid) (.ofInt 8 wlanid) (.ofInt 16 capability) (.ofInt 8 qos) (.ofInt 8 authtype)
    (.ofInt 8 macmode) (.ofInt 8 tunnelmode) hidessid ssid)

/-- The handler of an action; those of `UpdateWLAN` and `DeleteWLAN` return -1. -/
def parsingParams (action : String) (params : Json) : Option (String × Command) :=
  if action = "CloseWTPSession" then parsingClosewtpsessionEvent known params
  else if action = "ResetWTP" then parsingResetwtpEvent known params
  else if action = "AddWLAN" then parsingAddwlanEvent known params
  else none

/-- An item of the array, the WTPs with a session when it is handled, and whether `ac_backend_soap_update_event` has a
request then. -/
structure Item where
  json : Json
  known : String → Bool
  updates : Bool

inductive EventAnswer
  | running | genericError
  deriving DecidableEq

/-- A call of `ac_backend_parsing_event`: what it sent to a session, and the statuses that it sent to the backend. -/
structure Dispatched where
  event : Json
  sent : Option (String × NotifyEvent × Command)
  statuses : List (String × EventAnswer)

/-- `ac_backend_parsing_event`, and whether its result is -1.  The id is copied into an array of 65 bytes. -/
def parsingEvent (item : Item) : Option (Bool × Dispatched) :=
  match item.json.getString "EventID", item.json.getString "Action", item.json.getObject "Params" with
  | some idevent, some action, some params =>
    let update (status : EventAnswer) := if item.updates then [(idevent, status)] else []
    match parsingParams item.known action params with
    | none => some (true, ⟨item.json, none, update .genericError⟩)
    | some (wtpid, command) =>
      if idevent.utf8ByteSize < 65 then
        some (false, ⟨item.json, some (wtpid, command.notify idevent, command), update .running⟩)
      else none
  | _, _, _ => some (true, ⟨item.json, none, []⟩)

/-- The loop of `ac_backend_soap_waitevent`, with the result so far. -/
def waiteventLoop : Bool → List Item → Option (Bool × List Dispatched)
  | failed, [] => some (failed, [])
  | failed, item :: items =>
    match item.json with
    | .object _ => do
      let (failed, dispatched) ← parsingEvent item
      if failed then return (true, [dispatched])
      let (failed, rest) ← waiteventLoop false items
      return (failed, dispatched :: rest)
    | _ => waiteventLoop failed items

/-- `ac_backend_soap_waitevent` after the response, which is no array or one with the given items. -/
def soapWaitevent : Option (List Item) → Option (Bool × List Dispatched)
  | none => some (true, [])
  | some items => waiteventLoop (!items.isEmpty) items

/-- Whether `ac_backend_run` takes the connection for lost after the wait. -/
def lost (failed endthread : Bool) : Bool := failed && !endthread

/-! ## Answers -/

/-- `EventID`, `Action` and `Params` have the right types. -/
def Item.WellFormed (item : Item) : Prop :=
  (item.json.getString "EventID").isSome ∧ (item.json.getString "Action").isSome ∧
    (item.json.getObject "Params").isSome

/-- The parameters of the action are complete, and its WTP has a session. -/
def Executable (action : String) (params : Json) : Prop :=
  action = "CloseWTPSession" ∧ (∃ wtpid, params.getString "WTPId" = some wtpid ∧ known wtpid) ∨
  action = "ResetWTP" ∧ (∃ wtpid, params.getString "WTPId" = some wtpid ∧ known wtpid) ∧
    (∃ image, params.getObject "ImageIdentifier" = some image ∧ (image.getInt "Vendor").isSome ∧
      ∃ name, image.getString "Data" = some name ∧ name ≠ "") ∨
  action = "AddWLAN" ∧ (∃ wtpid, params.getString "WTPID" = some wtpid ∧ known wtpid) ∧
    (∀ key ∈ ["RadioID", "WLANID", "Capability", "DefaultQoS", "AuthType", "MACMode", "TunnelMode"],
      (params.getInt key).isSome) ∧
    (params.getBoolean "SuppressSSID").isSome ∧
    ∃ ssid, params.getString "SSID" = some ssid ∧ ssid.utf8ByteSize ≤ 32

theorem isSome_parsingParams_iff {known : String → Bool} {action : String} {params : Json} :
    (parsingParams known action params).isSome ↔ Executable known action params := by
  unfold parsingParams Executable
  split_ifs with close reset add
  · simp [close, parsingClosewtpsessionEvent, isSome_iff_exists, bind_eq_some_iff]
  · simp [reset, parsingResetwtpEvent, isSome_iff_exists, bind_eq_some_iff]
    grind
  · simp only [add, parsingAddwlanEvent, bind, isSome_iff_exists, bind_eq_some_iff, guard_eq_some',
      pure, String.reduceEq,
      false_and, true_and, false_or, forall_mem_cons]
    constructor
    · rintro ⟨-, wtpid, id, _, radio, _, wlan, _, cap, _, qos, _, auth, _, mac, _, tunnel, _, hide, ssid, text, -,
        ⟨short, known⟩, -⟩
      exact ⟨⟨wtpid, id, known⟩, ⟨⟨_, radio⟩, ⟨_, wlan⟩, ⟨_, cap⟩, ⟨_, qos⟩, ⟨_, auth⟩, ⟨_, mac⟩, ⟨_, tunnel⟩, nofun⟩,
        ⟨_, hide⟩, ssid, text, short⟩
    · rintro ⟨⟨wtpid, id, known⟩, ⟨⟨_, radio⟩, ⟨_, wlan⟩, ⟨_, cap⟩, ⟨_, qos⟩, ⟨_, auth⟩, ⟨_, mac⟩, ⟨_, tunnel⟩, -⟩,
        ⟨_, hide⟩, ssid, text, short⟩
      exact ⟨_, wtpid, id, _, radio, _, wlan, _, cap, _, qos, _, auth, _, mac, _, tunnel, _, hide, ssid, text, (),
        ⟨short, known⟩, rfl⟩
  · simp [close, reset, add]

/-- The event can be executed. -/
def Item.Executes (item : Item) : Prop :=
  ∃ action ∈ item.json.getString "Action", ∃ params ∈ item.json.getObject "Params", Executable item.known action params

/-- The id of the event fits into the array of a notification. -/
def Item.Fits (item : Item) : Prop := ∀ idevent ∈ item.json.getString "EventID", idevent.utf8ByteSize < 65

/-- One status was sent for the event. -/
def Dispatched.Told (d : Dispatched) : Prop :=
  ∃ idevent status, d.event.getString "EventID" = some idevent ∧ d.statuses = [(idevent, status)]

/-- Each event is dispatched once and in order, with one status, and the connection is not taken for lost. -/
def Answered (endthread : Bool) (items : List Item) (out : Bool × List Dispatched) : Prop :=
  out.2.map Dispatched.event = items.map Item.json ∧ (∀ d ∈ out.2, d.Told) ∧ lost out.1 endthread = false

variable {item : Item} {items : List Item} {endthread : Bool}

theorem Item.WellFormed.parsingEvent (wf : item.WellFormed) :
    match parsingEvent item with
    | none => item.Executes ∧ ¬ item.Fits
    | some (failed, d) => (failed = true ↔ ¬ item.Executes) ∧ (item.Executes → item.Fits) ∧
        d.event = item.json ∧ (d.Told ↔ item.updates = true) := by
  obtain ⟨id, action, params⟩ := wf
  obtain ⟨idevent, id⟩ := isSome_iff_exists.1 id
  obtain ⟨action', action⟩ := isSome_iff_exists.1 action
  obtain ⟨params', params⟩ := isSome_iff_exists.1 params
  have executes : item.Executes ↔ (parsingParams item.known action' params').isSome := by
    simp [Item.Executes, action, params, isSome_parsingParams_iff]
  have fits : item.Fits ↔ idevent.utf8ByteSize < 65 := by simp [Item.Fits, id]
  have told (event sent status) (same : event = item.json) :
      (Dispatched.mk event sent (if item.updates then [(idevent, status)] else [])).Told ↔ item.updates = true := by
    subst same
    cases item.updates <;> simp [Dispatched.Told, id]
  simp only [AcBackend.parsingEvent, id, action, params, executes, fits]
  cases parsingParams item.known action' params' with
  | none => simp [told]
  | some command =>
    by_cases short : idevent.utf8ByteSize < 65
    · simp [short, told]
    · simp [short]

/-- An item that can be handled with `rest` behind it. -/
def Item.Handles (endthread : Bool) (item : Item) (rest : List Item) : Prop :=
  item.updates = true ∧ (item.Executes ∧ item.Fits ∨ ¬ item.Executes ∧ rest = [] ∧ endthread = true)

theorem Item.WellFormed.waiteventLoop (wf : item.WellFormed) (failed : Bool) :
    waiteventLoop failed (item :: items) = (AcBackend.parsingEvent item).bind fun out =>
      if out.1 then some (true, [out.2])
      else (AcBackend.waiteventLoop false items).map fun rest => (rest.1, out.2 :: rest.2) := by
  cases json : item.json
  case object =>
    simp only [AcBackend.waiteventLoop, json, bind, pure]
    congr 1
    funext out
    split_ifs
    · rfl
    · exact (map_eq_bind ..).symm
  all_goals simp [WellFormed, json, Json.getString, Json.get] at wf

theorem waiteventLoop_answered_iff (wf : ∀ item ∈ items, item.WellFormed) :
    (∃ out, waiteventLoop false items = some out ∧ Answered endthread items out) ↔
      ∀ a item b, items = a ++ item :: b → item.Handles endthread b := by
  induction items with
  | nil => simp [waiteventLoop, Answered, lost]
  | cons item items ih =>
    obtain ⟨first, others⟩ := forall_mem_cons.1 wf
    have split : (∀ a x b, item :: items = a ++ x :: b → x.Handles endthread b) ↔
        item.Handles endthread items ∧ ∀ a x b, items = a ++ x :: b → x.Handles endthread b := by
      refine ⟨fun h => ⟨h [] item items rfl, fun a x b eq => h (item :: a) x b (by rw [eq]; rfl)⟩, fun h a x b eq => ?_⟩
      cases a with
      | nil =>
        cases eq
        exact h.1
      | cons y a =>
        cases eq
        exact h.2 a x b rfl
    have spec := first.parsingEvent
    rw [split, ← ih others, first.waiteventLoop, Item.Handles]
    cases parsed : parsingEvent item with
    | none =>
      rw [parsed] at spec
      simp [spec.1, spec.2]
    | some out =>
      obtain ⟨failed, d⟩ := out
      rw [parsed] at spec
      obtain ⟨refused, fits, event, told⟩ := spec
      cases failed with
      | true =>
        have refused := refused.1 rfl
        simp only [bind_some, if_true, some.injEq, exists_eq_left', Answered, lost, map_cons, event, told,
          forall_mem_singleton]
        constructor
        · rintro ⟨only, updates, ends⟩
          obtain rfl : items = [] := by simpa using only
          exact ⟨⟨updates, .inr ⟨refused, rfl, by simpa using ends⟩⟩, (false, []), rfl, by simp⟩
        · rintro ⟨⟨updates, ⟨executes, -⟩ | ⟨-, rfl, ends⟩⟩, -⟩
          · exact absurd executes refused
          · exact ⟨rfl, updates, by simp [ends]⟩
      | false =>
        have executes : item.Executes := by simpa using refused
        simp only [bind_some, Bool.false_eq_true, if_false, map_eq_some_iff, executes, fits executes]
        constructor
        · rintro ⟨_, ⟨out, rest, rfl⟩, events, statuses, kept⟩
          obtain ⟨head, tail⟩ := forall_mem_cons.1 statuses
          exact ⟨⟨told.1 head, .inl ⟨trivial, trivial⟩⟩, out, rest, (List.cons.inj events).2, tail, kept⟩
        · rintro ⟨⟨updates, -⟩, out, rest, events, statuses, kept⟩
          refine ⟨_, ⟨out, rest, rfl⟩, by simp [event, events], forall_mem_cons.2 ⟨told.2 updates, statuses⟩, kept⟩

theorem answered_iff (wf : ∀ item ∈ items, item.WellFormed) :
    (∃ out, soapWaitevent (some items) = some out ∧ Answered endthread items out) ↔
      ∀ a item b, items = a ++ item :: b → item.Handles endthread b := by
  rw [← waiteventLoop_answered_iff wf]
  cases items with
  | nil => rfl
  | cons item items =>
    have first := wf item mem_cons_self
    rw [soapWaitevent, first.waiteventLoop, first.waiteventLoop]

/-- An event for the WTP `a`, the only one with a session. -/
def eventFor (idevent action : String) : Item where
  json := .object [("EventID", .string idevent), ("Action", .string action),
    ("Params", .object [("WTPId", .string "a")])]
  known := (· == "a")
  updates := true

theorem wellFormed_eventFor (idevent action : String) : (eventFor idevent action).WellFormed := ⟨rfl, rfl, rfl⟩

theorem answered_iff_close : [eventFor "1" "CloseWTPSession"] ≠ [] ∧
    ∃ out, soapWaitevent (some [eventFor "1" "CloseWTPSession"]) = some out ∧
      Answered false [eventFor "1" "CloseWTPSession"] out := by
  refine ⟨nofun, (answered_iff (by simpa using wellFormed_eventFor _ _)).2 fun a item b eq => ?_⟩
  obtain ⟨rfl, rfl, rfl⟩ : a = [] ∧ item = eventFor "1" "CloseWTPSession" ∧ b = [] := by
    simpa [singleton_eq_append_iff, and_assoc] using eq
  exact ⟨rfl, .inl ⟨⟨_, rfl, _, rfl, .inl ⟨rfl, "a", rfl, by decide⟩⟩, by rintro _ ⟨⟩; decide⟩⟩

theorem event_dropped :
    ∃ out, soapWaitevent (some [eventFor "1" "UpdateWLAN", eventFor "2" "CloseWTPSession"]) = some out ∧
    out.2.map Dispatched.statuses = [[("1", .genericError)]] ∧ lost out.1 false = true ∧
    ¬ Answered false [eventFor "1" "UpdateWLAN", eventFor "2" "CloseWTPSession"] out :=
  ⟨_, rfl, rfl, rfl, fun answered => absurd answered.2.2 (by decide)⟩

end OpenWifi.AcBackend
