import OpenWifi.AcSession.Dispatch

/-!
# What the backend is told of its events

Every event that a session has queued is reported exactly once by its end.
-/

namespace OpenWifi.AcSession.Life

open List CapwapProtocol CapwapElement

variable {ε : Type*} {code : ε → ℕ} {packet : Packet ε} {a : Answers} {s t : Life}

structure Accounted (s : Life) : Prop where
  once : (s.reports.map Report.event ++ s.notifyevent).Perm s.queued
  ended : s.state = .dtlsTeardown ∨ s.state = .dead → s.notifyevent = []

variable {p : NotifyEvent → Bool}

theorem perm_eraseP_of_find {l : List NotifyEvent} {event : NotifyEvent}
    (found : l.find? p = some event) : l.Perm (event :: l.eraseP p) := by
  obtain ⟨holds, before, after, rfl, others⟩ := find?_eq_some_iff_append.1 found
  rw [eraseP_append_right _ (by simpa using others), eraseP_cons_of_pos holds]
  exact perm_middle

variable {status : EventStatus}

theorem notifyFirst_once {cause : Cause} (once : (s.reports.map Report.event ++ s.notifyevent).Perm s.queued) :
    ((s.notifyFirst p status cause).reports.map Report.event ++ (s.notifyFirst p status cause).notifyevent).Perm
      (s.notifyFirst p status cause).queued := by
  unfold notifyFirst
  split
  · exact once
  next event found =>
    simp only [map_append, map_cons, map_nil, append_assoc, singleton_append]
    exact ((perm_eraseP_of_find found).symm.append_left _).trans once

theorem notifyFirst_nil {cause : Cause} (none : s.notifyevent = []) :
    (s.notifyFirst p status cause).notifyevent = [] := by
  unfold notifyFirst
  split <;> simp [none]

variable {state : SessionState}

theorem changeState_once (once : (s.reports.map Report.event ++ s.notifyevent).Perm s.queued) :
    ((s.changeState state).reports.map Report.event ++ (s.changeState state).notifyevent).Perm
      (s.changeState state).queued := by
  unfold changeState
  split
  · exact once
  · exact notifyFirst_once once

theorem changeState_nil (none : s.notifyevent = []) : (s.changeState state).notifyevent = [] := by
  unfold changeState
  split
  · exact none
  · exact notifyFirst_nil none

section

variable (h : s.Accounted)
include h

theorem Accounted.changeState (alive : state ≠ .dtlsTeardown ∧ state ≠ .dead) : (s.changeState state).Accounted where
  once := changeState_once h.once
  ended ended := by
    rw [changeState_state] at ended
    exact absurd ended (by simp [alive])

theorem Accounted.teardown : s.teardown.Accounted where
  once := by
    refine changeState_once ?_
    simpa [Function.comp_def] using h.once
  ended _ := changeState_nil rfl

theorem Accounted.of_same (same : s.SameEvents t) : t.Accounted where
  once := by rw [same.reports, same.notifyevent, same.queued]; exact h.once
  ended := by rw [same.state, same.notifyevent]; exact h.ended

theorem Accounted.decided (decided : s.Decided t) : t.Accounted := by
  cases decided with
  | goTo same next => exact (h.of_same same).changeState (by rcases next with rfl | rfl | rfl <;> decide)
  | finish same => exact (h.of_same same).teardown

theorem Accounted.dfaExecute (executed : s.dfaExecute packet a = .ok t) : t.Accounted := by
  rcases dfaExecute_cases executed with same | decided | decided | decided
  · exact h.of_same same
  · exact h.decided decided
  · exact (h.changeState (by decide)).decided decided
  · exact (h.changeState (by decide)).decided decided

theorem Accounted.notifyMessage : (s.notifyMessage code packet).Accounted := by
  unfold Life.notifyMessage
  split
  all_goals exact ⟨notifyFirst_once h.once, fun ended => notifyFirst_nil (h.ended (by simpa using ended))⟩

theorem Accounted.step {e : Event ε} (next : s.step code e = some t) : t.Accounted := by
  cases turn_of_step next with
  | stay => exact h
  | queue loops =>
    have going : s.state ≠ .idle ∧ s.state ≠ .dtlsTeardown ∧ s.state ≠ .dead := by simpa [Life.loops] using loops
    refine ⟨?_, fun ended => absurd ended (by simp [going])⟩
    rw [← append_assoc]
    exact h.once.append_right _
  | enter alive => exact h.changeState alive.2
  | finish => exact h.teardown
  | handle executed => exact h.notifyMessage.dfaExecute executed
  | leave ended => exact ⟨changeState_once h.once, fun _ => changeState_nil (h.ended (.inl ended))⟩

end

theorem accounted_created : created.Accounted := ⟨.refl _, fun _ => rfl⟩

theorem run_accounted {events : List (Event ε)} (run : runFrom (step code) created events = some s) : s.Accounted :=
  runFrom_invariant (fun _ _ _ h next => h.step next) accounted_created run

def AwaitsDead (event : NotifyEvent) : Prop :=
  event.action = notifyActionChangeState ∧ event.value = SessionState.dead.number

/-- An event that waits for a response is completed by one of its type without an error, one that waits for the end of
the session is completed. -/
structure Report.Right (r : Report) : Prop where
  response : r.status = .complete → r.event.action = notifyActionReceiveResponseControlmessage →
    ∃ type code, r.cause = .message type code ∧ type.isRequest = false ∧ type.number = r.event.value ∧
      code.all resultcodeOk = true
  dead : AwaitsDead r.event → r.status = .complete

structure Answered (s : Life) : Prop extends s.Accounted where
  right : ∀ r ∈ s.reports, Report.Right r

/-- No event waits for the end of the session, and a message is a response for which the first of the waiting events
waits.  A request completes such an event too, since both actions are the number 1. -/
def Awaited (code : ε → ℕ) (s : Life) : Event ε → Prop
  | .notifyEvent event => ¬AwaitsDead event
  | .message packet _ => s.repeats packet = false →
    validateParsedPacket code packet.binding packet.type packet.messages →
    ∀ event, s.notifyevent.find? (·.action = notifyActionReceiveResponseControlmessage) = some event →
      packet.type.isRequest = false ∧ packet.type.number = event.value
  | _ => True

structure InOrder (s : Life) : Prop where
  right : ∀ r ∈ s.reports, Report.Right r
  alive : ∀ e ∈ s.notifyevent, ¬AwaitsDead e

theorem Report.right_of_changeState {r : Report} (status : r.status = .complete)
    (action : r.event.action = notifyActionChangeState) : Report.Right r :=
  ⟨fun _ other => absurd (action.symm.trans other) (by decide), fun _ => status⟩

theorem Report.right_of_cancel {r : Report} (status : r.status = .cancel) (alive : ¬AwaitsDead r.event) :
    Report.Right r :=
  ⟨fun complete => absurd (status.symm.trans complete) (by decide), fun dead => absurd dead alive⟩

section

variable (h : s.InOrder)
include h

theorem InOrder.notifyFirst {cause : Cause}
    (right : ∀ event, s.notifyevent.find? p = some event → Report.Right ⟨event, status, cause⟩) :
    (s.notifyFirst p status cause).InOrder := by
  unfold Life.notifyFirst
  split
  · exact h
  next event found =>
    have right' := forall_mem_append.2 ⟨h.right, forall_mem_singleton.2 (right event found)⟩
    exact ⟨right', fun e mem => h.alive e (mem_of_mem_eraseP mem)⟩

theorem InOrder.changeState (state : SessionState) : (s.changeState state).InOrder := by
  unfold Life.changeState
  split
  · exact h
  · have entered : ({ s with state := state } : Life).InOrder := ⟨h.right, h.alive⟩
    refine entered.notifyFirst fun event found => ?_
    have action : event.action = notifyActionChangeState ∧ event.value = state.number := by
      simpa using find?_some found
    exact Report.right_of_changeState rfl action.1

theorem InOrder.teardown : s.teardown.InOrder := by
  refine InOrder.changeState ⟨fun r mem => ?_, by simp⟩ _
  rcases mem_append.1 mem with old | new
  · exact h.right r old
  · obtain ⟨event, waiting, rfl⟩ := mem_map.1 new
    exact Report.right_of_cancel rfl (h.alive event waiting)

theorem InOrder.of_same (same : s.SameEvents t) : t.InOrder :=
  ⟨by rw [same.reports]; exact h.right, by rw [same.notifyevent]; exact h.alive⟩

theorem InOrder.decided (decided : s.Decided t) : t.InOrder := by
  cases decided with
  | goTo same next => exact (h.of_same same).changeState _
  | finish same => exact (h.of_same same).teardown

theorem InOrder.dfaExecute (executed : s.dfaExecute packet a = .ok t) : t.InOrder := by
  rcases dfaExecute_cases executed with same | decided | decided | decided
  · exact h.of_same same
  · exact h.decided decided
  · exact (h.changeState _).decided decided
  · exact (h.changeState _).decided decided

theorem InOrder.notifyMessage (awaited : ∀ event,
      s.notifyevent.find? (·.action = notifyActionReceiveResponseControlmessage) = some event →
      packet.type.isRequest = false ∧ packet.type.number = event.value) : (s.notifyMessage code packet).InOrder := by
  unfold Life.notifyMessage
  split
  next request =>
    refine h.notifyFirst fun event found => ?_
    exact absurd request (by simp [(awaited event found).1])
  · refine h.notifyFirst fun event found => ?_
    have action : event.action = notifyActionReceiveResponseControlmessage := by simpa using find?_some found
    refine ⟨fun complete _ => ⟨packet.type, _, rfl, (awaited event found).1, (awaited event found).2, ?_⟩, ?_⟩
    · by_contra error
      simp [error] at complete
    · rintro ⟨other, -⟩
      exact absurd (other.symm.trans action) (by decide)

theorem InOrder.step {e : Event ε} (awaited : s.Awaited code e) (next : s.step code e = some t) : t.InOrder := by
  cases turn_of_step next with
  | stay => exact h
  | queue loops => exact ⟨h.right, forall_mem_append.2 ⟨h.alive, forall_mem_singleton.2 awaited⟩⟩
  | enter alive => exact h.changeState _
  | finish => exact h.teardown
  | handle executed fresh valid => exact (h.notifyMessage (awaited fresh valid)).dfaExecute executed
  | leave ended => exact h.changeState _

end

/-- In every run in which messages come only as they are waited for, and no event waits for the end of the session. -/
theorem run_answered {events : List (Event ε)} (awaited : Along (step code) (Awaited code) created events)
    (run : runFrom (step code) created events = some s) : s.Answered := by
  have inOrder : s.InOrder :=
    awaited.invariant (fun _ _ _ h awaited next => InOrder.step h awaited next)
      ⟨by simp [created], by simp [created]⟩ run
  exact { run_accounted run with right := inOrder.right }

/-- The event of `ac_backend_parsing_addwlan_event`. -/
def addWlanEvent : NotifyEvent :=
  ⟨"1", notifyActionReceiveResponseControlmessage, MessageType.wlanConfigurationResponse.number⟩

/-- The event of `ac_backend_parsing_closewtpsession_event`. -/
def closeWtpSessionEvent : NotifyEvent := ⟨"2", notifyActionChangeState, SessionState.dead.number⟩

def addWlanAnswered : List (Event ℕ) :=
  [.begin false true, .notifyEvent addWlanEvent,
    .message (messageWith .wlanConfigurationResponse [.resultcode]) consenting]

/-- The response to the configuration of a WLAN completes the event that waits for it. -/
theorem run_answered_addWlan : ∃ s, runFrom (step id) created addWlanAnswered = some s ∧
    s.reports = [⟨addWlanEvent, .complete, .message .wlanConfigurationResponse (some 0)⟩] ∧ s.Answered := by
  have awaited : Along (step id) (Awaited id) created addWlanAnswered := by
    refine ⟨trivial, fun t first => ⟨fun dead => absurd dead.1 (by decide), fun u second =>
      ⟨fun _ _ event found => ?_, fun _ _ => trivial⟩⟩⟩
    cases first
    cases second
    cases found
    exact ⟨rfl, rfl⟩
  exact ⟨_, rfl, by decide, run_answered awaited rfl⟩

/-- An Echo Request completes the event that waits for the configuration of a WLAN, and one that waits for the end is
cancelled. -/
theorem events_completed_wrongly : ∃ s, runFrom (step id) created (joinAndConfigure ++
      [.message (messageWith .changeStateEventRequest [.radiooprstate, .resultcode]) consenting, .recvKeepalive true,
        .notifyEvent addWlanEvent, .notifyEvent closeWtpSessionEvent, .message (messageWith .echoRequest []) consenting,
        .teardown, .leave]) = some s ∧ s.state = .dead ∧
    s.reports = [⟨addWlanEvent, .complete, .message .echoRequest none⟩, ⟨closeWtpSessionEvent, .cancel, .teardown⟩] :=
  ⟨_, rfl, by decide +kernel, by decide +kernel⟩

end OpenWifi.AcSession.Life
