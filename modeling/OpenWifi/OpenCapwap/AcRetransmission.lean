import OpenWifi.Lib.Steps
import Mathlib.Data.Int.Notation

/-!
# Retransmission of the AC

`CWSoftTimerExpiredHandler` should send the fragments of a request again.  But `CWACSendFragments` frees the fragments
that it has sent, and without them the handler does nothing.
-/

namespace OpenWifi.OpenCapwap

/-- The part of `CWWTPManager` for retransmissions, with the armed timers and what has been sent.  `request` is the last
request, which the code does not keep. -/
structure WTPManager where
  messages : Option (List (List UInt8))
  retransmissionCount : ℤ
  isRetransmitting : Bool
  responseType : ℕ
  responseSeqNum : ℕ
  currentPacketTimer : ℤ
  isRequestClose : Bool
  armed : List ℤ
  pending : Bool
  sent : List (List UInt8)
  closed : Bool
  request : List (List UInt8)
  deriving DecidableEq

/-- What comes of `CWTimerRequest`. -/
inductive TimerRequest
  | noMemory
  | noTimer
  | added (id : ℤ)
  deriving DecidableEq

/-- `UNUSED_MSG_TYPE`. -/
def unusedMsgType : ℕ := 0

namespace WTPManager

/-- The state that `CWManageWTP` starts with. -/
def start : WTPManager where
  messages := none
  retransmissionCount := 0
  isRetransmitting := false
  responseType := unusedMsgType
  responseSeqNum := 0
  currentPacketTimer := 0
  isRequestClose := false
  armed := []
  pending := false
  sent := []
  closed := false
  request := []

/-- `CWACSendFragments`, when the network takes `delivered` packets before it fails. -/
def sendFragments (delivered : ℕ) (m : WTPManager) : WTPManager × Bool :=
  match m.messages with
  | none => (m, false)
  | some messages =>
    if messages.length ≤ delivered then ({ m with sent := m.sent ++ messages, messages := none }, true)
    else ({ m with sent := m.sent ++ messages.take delivered }, false)

/-- `CWTimerRequest` for `currentPacketTimer`. -/
def requestTimer (timer : TimerRequest) (m : WTPManager) : WTPManager × Bool :=
  match timer with
  | .noMemory => (m, false)
  | .noTimer => ({ m with currentPacketTimer := -1 }, false)
  | .added id => ({ m with currentPacketTimer := id, armed := id :: m.armed }, true)

/-- `CWACResendAcknowledgedPacket`. -/
def resendAcknowledgedPacket (delivered : ℕ) (timer : TimerRequest) (m : WTPManager) : WTPManager × Bool :=
  match sendFragments delivered m with
  | (m, false) => (m, false)
  | (m, true) => requestTimer timer m

/-- `CWACSendAcknowledgedPacket`. -/
def sendAcknowledgedPacket (msgType seqNum delivered : ℕ) (timer : TimerRequest) (m : WTPManager) : WTPManager × Bool :=
  resendAcknowledgedPacket delivered timer
    { m with retransmissionCount := 0, isRetransmitting := true, responseType := msgType, responseSeqNum := seqNum }

/-- `CWACStopRetransmission`. -/
def stopRetransmission (m : WTPManager) : WTPManager :=
  if m.isRetransmitting then
    { m with
      isRetransmitting := false
      armed := m.armed.erase m.currentPacketTimer
      responseType := unusedMsgType
      responseSeqNum := 0
      messages := none }
  else m

/-- `_CWCloseThread`. -/
def closeThread (m : WTPManager) : WTPManager := { m.stopRetransmission with closed := true }

/-- `CWSoftTimerExpiredHandler`. -/
def softTimerExpiredHandler (maxRetransmit : ℤ) (delivered : ℕ) (timer : TimerRequest) (m : WTPManager) : WTPManager :=
  if !m.isRetransmitting || m.messages.isNone then m
  else
    let m := { m with retransmissionCount := m.retransmissionCount + 1 }
    if maxRetransmit ≤ m.retransmissionCount then { m with isRequestClose := true }
    else
      match resendAcknowledgedPacket delivered timer m with
      | (m, true) => m
      | (m, false) => m.closeThread

end WTPManager

inductive AcEvent
  | request (fragments : List (List UInt8)) (msgType seqNum delivered : ℕ) (timer : TimerRequest)
  | reply (fragments : List (List UInt8)) (delivered : ℕ)
  | response (seqNum : ℕ) (parses : Bool)
  | timerExpires (id : ℤ)
  | softSignal (delivered : ℕ) (timer : TimerRequest)
  /-- `CWCriticalTimerExpiredHandler` -/
  | criticalSignal
  | closeRequested
  | criticalError

namespace WTPManager

/-- One event; `none` when it is not possible. -/
def step (maxRetransmit : ℤ) (m : WTPManager) (event : AcEvent) : Option WTPManager :=
  if m.closed then none
  else
    match event with
    | .request fragments msgType seqNum delivered timer =>
      match sendAcknowledgedPacket msgType seqNum delivered timer
        { m with messages := some fragments, request := fragments } with
      | (m, true) => some m
      | (m, false) => some m.stopRetransmission
    | .reply fragments delivered =>
      match sendFragments delivered { m with messages := some fragments } with
      | (m, true) => some m
      | (m, false) => some m.closeThread
    | .response seqNum parses => some (if seqNum = m.responseSeqNum ∧ parses then m.stopRetransmission else m)
    | .timerExpires id => if id ∈ m.armed then some { m with armed := m.armed.erase id, pending := true } else none
    | .softSignal delivered timer =>
      if m.pending then some (softTimerExpiredHandler maxRetransmit delivered timer { m with pending := false })
      else none
    | .criticalSignal => some { m with isRequestClose := true }
    | .closeRequested => if m.isRequestClose then some m.closeThread else none
    | .criticalError => some m.closeThread

def Watched (m : WTPManager) : Prop :=
  m.isRetransmitting → m.armed ≠ [] ∨ m.pending ∨ m.isRequestClose ∨ m.closed

/-- The request is sent and a timer armed again, or the WTP is closed after the last repetition or when the network or
the timer fails. -/
def Repeats (maxRetransmit : ℤ) (m m' : WTPManager) : Prop :=
  m'.closed ∨
    if m.retransmissionCount + 1 < maxRetransmit then m'.sent = m.sent ++ m.request ∧ ∃ id, m'.armed = id :: m.armed
    else m'.isRequestClose

def Overdue (m : WTPManager) : AcEvent → Prop
  | .softSignal _ _ => m.pending ∧ m.isRetransmitting ∧ ¬ m.isRequestClose ∧ ¬ m.closed
  | _ => False

instance (m : WTPManager) (event : AcEvent) : Decidable (Overdue m event) := by
  cases event <;> dsimp only [Overdue] <;> infer_instance

def Retransmits (maxRetransmit : ℤ) (m : WTPManager) (event : AcEvent) : Prop :=
  ∀ m', step maxRetransmit m event = some m' → m'.Watched ∧ (Overdue m event → Repeats maxRetransmit m m')

variable {m m' : WTPManager} {delivered : ℕ} {timer : TimerRequest} {maxRetransmit : ℤ}

theorem resendAcknowledgedPacket_spec (m : WTPManager) (delivered : ℕ) (timer : TimerRequest) :
    (∃ m', resendAcknowledgedPacket delivered timer m = (m', true) ∧ m'.armed ≠ [] ∧ m'.messages = none) ∨
      ∃ m', resendAcknowledgedPacket delivered timer m = (m', false) := by
  unfold resendAcknowledgedPacket sendFragments
  cases m.messages with
  | none => exact .inr ⟨_, rfl⟩
  | some messages =>
    by_cases all : messages.length ≤ delivered
    · simp only [if_pos all]
      cases timer with
      | noMemory | noTimer => exact .inr ⟨_, rfl⟩
      | added id => exact .inl ⟨_, rfl, by simp, rfl⟩
    · simp only [if_neg all]
      exact .inr ⟨_, rfl⟩

theorem isRetransmitting_stop (m : WTPManager) : m.stopRetransmission.isRetransmitting = false := by
  unfold stopRetransmission
  split_ifs with h
  · rfl
  · simpa using h

inductive Outcome (m : WTPManager) (event : AcEvent) (m' : WTPManager) : Prop
  | stopped (off : m'.isRetransmitting = false)
  | repeated (armed : m'.armed ≠ []) (freed : m'.messages = none)
  | kept (same : m'.isRetransmitting = m.isRetransmitting) (messages : m'.messages = m.messages ∨ m'.messages = none)
      (watched : m'.armed = m.armed ∧ m'.pending = m.pending ∧ m'.isRequestClose = m.isRequestClose ∨
        m'.pending = true ∨ m'.isRequestClose = true)
  | ignored (delivered : ℕ) (timer : TimerRequest) (signal : event = .softSignal delivered timer)
    (pending : m.pending = true)
      (same : m' = { m with pending := false })

variable {event : AcEvent}

theorem Outcome.stop (x : WTPManager) : Outcome m event x.stopRetransmission :=
  .stopped (isRetransmitting_stop x)

theorem Outcome.close (x : WTPManager) : Outcome m event x.closeThread :=
  .stopped (isRetransmitting_stop x)

theorem step_outcome (next : step maxRetransmit m event = some m') : m.closed = false ∧ Outcome m event m' := by
  unfold step at next
  by_cases closed : m.closed = true
  · rw [if_pos closed] at next
    exact absurd next nofun
  · rw [if_neg closed] at next
    refine ⟨by simpa using closed, ?_⟩
    cases event with
    | request fragments msgType seqNum delivered timer =>
      simp only [sendAcknowledgedPacket] at next
      rcases resendAcknowledgedPacket_spec _ delivered timer with ⟨sent, eq, armed, freed⟩ | ⟨failed, eq⟩
      · rw [eq] at next
        cases next
        exact .repeated armed freed
      · rw [eq] at next
        cases next
        exact .stop failed
    | reply fragments delivered =>
      simp only [sendFragments] at next
      split_ifs at next
      · cases next
        exact .kept rfl (.inr rfl) (.inl ⟨rfl, rfl, rfl⟩)
      · cases next
        exact .close _
    | response seqNum parses =>
      cases next
      split_ifs
      · exact .stop m
      · exact .kept rfl (.inl rfl) (.inl ⟨rfl, rfl, rfl⟩)
    | timerExpires id =>
      obtain ⟨-, eq⟩ := Option.ite_none_right_eq_some.1 next
      cases eq
      exact .kept rfl (.inl rfl) (.inr (.inl rfl))
    | softSignal delivered timer =>
      obtain ⟨signal, eq⟩ := Option.ite_none_right_eq_some.1 next
      cases eq
      simp only [softTimerExpiredHandler]
      split_ifs
      · exact .ignored delivered timer rfl signal rfl
      · exact .kept rfl (.inl rfl) (.inr (.inr rfl))
      · rcases resendAcknowledgedPacket_spec _ delivered timer with ⟨sent, eq, armed, freed⟩ | ⟨failed, eq⟩
        · rw [eq]
          exact .repeated armed freed
        · rw [eq]
          exact .close failed
    | criticalSignal =>
      cases next
      exact .kept rfl (.inl rfl) (.inr (.inr rfl))
    | closeRequested =>
      obtain ⟨-, eq⟩ := Option.ite_none_right_eq_some.1 next
      cases eq
      exact .close m
    | criticalError =>
      cases next
      exact .close m

theorem Watched.step (watched : m.Watched) (inTime : ¬ Overdue m event)
    (next : WTPManager.step maxRetransmit m event = some m') : m'.Watched := by
  obtain ⟨notClosed, outcome⟩ := step_outcome next
  intro repeating
  cases outcome with
  | stopped off => exact absurd (repeating.symm.trans off) nofun
  | repeated armed _ => exact .inl armed
  | kept same _ others =>
    rcases others with ⟨armed, pending, closing⟩ | pending | closing
    · rw [armed, pending, closing]
      rcases watched (same ▸ repeating) with armed | pending | closing | closed
      · exact .inl armed
      · exact .inr (.inl pending)
      · exact .inr (.inr (.inl closing))
      · exact absurd (notClosed.symm.trans closed) nofun
    · exact .inr (.inl pending)
    · exact .inr (.inr (.inl closing))
  | ignored delivered timer signal pending same =>
    subst signal same
    -- the request is not overdue, so that the WTP is being closed
    refine .inr (.inr (.inl (by_contra fun notClosing => inTime ⟨pending, repeating, notClosing, ?_⟩)))
    rw [notClosed]
    exact nofun

def Freed (m : WTPManager) : Prop := m.isRetransmitting → m.messages = none

theorem Freed.step (freed : m.Freed) (next : WTPManager.step maxRetransmit m event = some m') : m'.Freed := by
  obtain ⟨-, outcome⟩ := step_outcome next
  intro repeating
  cases outcome with
  | stopped off => exact absurd (repeating.symm.trans off) nofun
  | repeated _ none => exact none
  | kept same messages _ =>
    rcases messages with old | none
    · rw [old]
      exact freed (same ▸ repeating)
    · exact none
  | ignored delivered timer signal pending same =>
    subst same
    exact freed repeating

theorem not_retransmits (freed : m.Freed) (overdue : Overdue m event) : ¬ Retransmits maxRetransmit m event := by
  intro retransmits
  cases event with
  | softSignal delivered timer =>
    obtain ⟨signal, repeated, notClosing, notClosed⟩ := id overdue
    have idle : softTimerExpiredHandler maxRetransmit delivered timer { m with pending := false } =
        { m with pending := false } := if_pos (by simp [freed repeated])
    have next : step maxRetransmit m (.softSignal delivered timer) = some { m with pending := false } := by
      rw [step, if_neg notClosed]
      simp [signal, idle]
    rcases (retransmits _ next).2 overdue with close | repeats
    · exact notClosed close
    · split_ifs at repeats
      · obtain ⟨-, id, armed⟩ := repeats
        exact absurd (congrArg List.length armed) (by simp)
      · exact notClosing repeats
  | request | reply | response | timerExpires | criticalSignal | closeRequested | criticalError => exact overdue

theorem inTime_of_retransmits {events : List AcEvent}
    (retransmits : Along (step maxRetransmit) (Retransmits maxRetransmit) start events) :
    Along (step maxRetransmit) (fun m event => ¬ Overdue m event) start events := by
  refine Along.imp (P := Freed) (fun m event m' freed _ next => freed.step next) ?_ nofun retransmits
  exact fun m event freed retransmits overdue => not_retransmits freed overdue retransmits

/-- A run does what is expected exactly when no request becomes overdue. -/
theorem retransmits_iff (maxRetransmit : ℤ) (events : List AcEvent) :
    Along (step maxRetransmit) (Retransmits maxRetransmit) start events ↔
      Along (step maxRetransmit) (fun m event => ¬ Overdue m event) start events := by
  refine ⟨inTime_of_retransmits, ?_⟩
  refine Along.imp (P := Watched) (fun m event m' watched inTime next => watched.step inTime next) ?_ nofun
  exact fun m event watched inTime m' next => ⟨watched.step inTime next, fun overdue => absurd overdue inTime⟩

def lostResponse : List AcEvent :=
  [.request [[1, 2, 3]] 8 1 1 (.added 7), .timerExpires 7, .softSignal 1 (.added 8)]

/-- The request has been sent once, the AC waits for the response, and nothing will end that. -/
theorem request_abandoned : (runFrom (step 5) start lostResponse).map (fun m => (m.isRetransmitting, m.sent, m.armed)) =
        some (true, [[1, 2, 3]], []) ∧
      (runFrom (step 5) start lostResponse).map (fun m => (m.pending, m.isRequestClose, m.closed)) =
        some (false, false, false) ∧ ¬ Along (step 5) (Retransmits 5) start lostResponse := by
  refine ⟨by decide, by decide, ?_⟩
  have overdue : ¬ Along (step 5) (fun m event => ¬ Overdue m event) start lostResponse := by decide +kernel
  exact fun retransmits => overdue (inTime_of_retransmits retransmits)

end WTPManager

end OpenWifi.OpenCapwap
