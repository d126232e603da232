import OpenWifi.AcSession.Thread

/-!
# A session ends once

The thread of a session is `Open` until it calls `ac_session_teardown`, and `Closed` from then on.  No function calls it
on a thread that is closed.
-/

namespace OpenWifi.AcSession

open Option

variable {ε : Type}

def SessionState.Ongoing (state : SessionState) : Prop := state ≠ .dtlsTeardown ∧ state ≠ .dead
  deriving Decidable

def Effect.Ongoing : Effect → Prop
  | .teardown => False
  | .unlink => False
  | .enter state => state.Ongoing
  | _ => True

namespace Thread

variable {t t' : Thread ε} {packet : Packet ε} {a : Answers} {r : Replies} {code : ε → ℕ}

structure Open (t : Thread ε) : Prop where
  state : t.life.state.Ongoing
  idtimercontrol : t.idtimercontrol = 1
  idtimerkeepalivedead : t.idtimerkeepalivedead = 2
  effects : ∀ e ∈ t.trace, e.Ongoing

/-- The session has ended once, with what `ac_session_teardown` does and then `rest`. -/
structure Finished (t : Thread ε) (rest : List Effect) : Prop where
  control : t.timers.pending 1 = none
  keepalivedead : t.timers.pending 2 = none
  effects : ∃ before, t.trace = before ++ [.teardown, .unlink, .enter .dtlsTeardown] ++ rest ∧ ∀ e ∈ before, e.Ongoing

/-- The session has ended, and the loop of `ac_session_run` is to be left. -/
structure Closed (t : Thread ε) : Prop where
  state : t.life.state = .dtlsTeardown
  finished : t.Finished []

theorem open_created : (created : Thread ε).Open :=
  ⟨(by decide : SessionState.Ongoing .idle), rfl, rfl, nofun⟩

theorem Open.log (h : t.Open) (effect : Effect) (ongoing : effect.Ongoing) : (t.log effect).Open where
  state := h.state
  idtimercontrol := h.idtimercontrol
  idtimerkeepalivedead := h.idtimerkeepalivedead
  effects := List.forall_mem_append.2 ⟨h.effects, List.forall_mem_singleton.2 ongoing⟩

theorem Open.withLife (h : t.Open) {f : Life → Life} (ongoing : (f t.life).state.Ongoing) : (t.withLife f).Open :=
  ⟨ongoing, h.idtimercontrol, h.idtimerkeepalivedead, h.effects⟩

theorem Open.arm (h : t.Open) (timer : SessionTimer) (durate : ℕ) (callback : Timeout) :
    (t.arm timer durate callback).Open := by
  have set : ({ t with timers := t.timers.set (t.index timer) ⟨durate, callback⟩ } : Thread ε).Open :=
    ⟨h.state, h.idtimercontrol, h.idtimerkeepalivedead, h.effects⟩
  exact set.log (.arm timer (t.index timer)) trivial

variable {state : SessionState}

theorem Open.changeState (h : t.Open) (ongoing : state.Ongoing) : (t.changeState state).Open := by
  unfold Thread.changeState
  split_ifs
  · exact h
  · exact (h.withLife (by rwa [Life.changeState_state])).log _ ongoing

theorem Open.advance (h : t.Open) (ongoing : state.Ongoing) (timer : SessionTimer) (durate : ℕ)
    (callback : Timeout) : ((t.changeState state).arm timer durate callback).Open :=
  (h.changeState ongoing).arm timer durate callback

theorem Open.of_same (h : t.Open) (life : t'.life = t.life) (control : t'.idtimercontrol = t.idtimercontrol)
    (keepalivedead : t'.idtimerkeepalivedead = t.idtimerkeepalivedead) (trace : t'.trace = t.trace) : t'.Open :=
  ⟨life ▸ h.state, control.trans h.idtimercontrol, keepalivedead.trans h.idtimerkeepalivedead, trace ▸ h.effects⟩

theorem Finished.of_same {rest : List Effect} (h : t.Finished rest) (timers : t'.timers = t.timers)
    (trace : t'.trace = t.trace) : t'.Finished rest :=
  ⟨timers ▸ h.control, timers ▸ h.keepalivedead, trace ▸ h.effects⟩

theorem Open.teardown (h : t.Open) : t.teardown.Closed := by
  have other : SessionState.dtlsTeardown ≠ t.life.state := Ne.symm h.state.1
  have eq : t.teardown = ((((t.log .teardown).log .unlink).withLife Life.teardown).log
    (.enter .dtlsTeardown) |> fun u =>
      { u with
        packets := []
        timers := (t.timers.unset t.idtimercontrol).unset t.idtimerkeepalivedead
        idtimercontrol := 0
        idtimerkeepalivedead := 0 }) := by
    unfold Thread.teardown Thread.changeState
    rw [if_neg (by exact other)]
    rfl
  rw [eq, h.idtimercontrol, h.idtimerkeepalivedead]
  refine ⟨Life.teardown_state t.life, ?_, ?_, t.trace, ?_, h.effects⟩
  · simp [Timers.unset]
  · simp [Timers.unset]
  · simp [Thread.log, Thread.withLife]

section

variable (h : t.Open)
include h

theorem Open.sendRequest (ongoing : state.Ongoing) (accepted : Bool)
    (r : Replies) : (t.sendRequest state accepted r).Open ∨ (t.sendRequest state accepted r).Closed := by
  unfold Thread.sendRequest
  split_ifs
  · have sent : ({ t with request := true, retransmitcount := 0 } : Thread ε).Open := h.of_same rfl rfl rfl rfl
    exact .inl (sent.advance ongoing _ _ _)
  · have freed : ({ t with request := false } : Thread ε).Open := h.of_same rfl rfl rfl rfl
    exact .inr freed.teardown

theorem Open.actionAddwlan (radioid wlanid : ℕ) (r : Replies) :
    (t.actionAddwlan radioid wlanid r).Open ∨ (t.actionAddwlan radioid wlanid r).Closed := by
  unfold Thread.actionAddwlan
  split_ifs
  · exact .inl h
  · exact .inl h
  · exact h.sendRequest h.state true r

theorem Open.actionAddStation (radioid wlanid : ℕ) (r : Replies) :
    (t.actionAddStation radioid wlanid r).Open ∨ (t.actionAddStation radioid wlanid r).Closed := by
  unfold Thread.actionAddStation
  split_ifs
  · exact .inl h
  · exact h.sendRequest h.state _ r
  · exact .inl h

theorem Open.actionDeleteStation (radioid : ℕ) (r : Replies) :
    (t.actionDeleteStation radioid r).Open ∨ (t.actionDeleteStation radioid r).Closed := by
  unfold Thread.actionDeleteStation
  split_ifs
  · exact .inl h
  · exact h.sendRequest h.state true r

theorem Open.actionRecvKeepalive (r : Replies) : (t.actionRecvKeepalive r).1.Open := by
  have armed := h.arm .keepalivedead maxDataKeepaliveInterval .teardown
  unfold Thread.actionRecvKeepalive
  dsimp only
  split_ifs
  · exact armed.advance (by decide) _ _ _
  · exact armed
  · exact armed

theorem Open.actionExecute (r : Replies) (action : QueuedAction) : (t.actionExecute r action).1.Open ∨
      (t.actionExecute r action).1.Closed ∧ (t.actionExecute r action).2 = noError := by
  cases action with
  | close => exact .inl h
  | resetWtp => exact (h.sendRequest (by decide) true r).imp_right (⟨·, rfl⟩)
  | addwlan radioid wlanid => exact (h.actionAddwlan radioid wlanid r).imp_right (⟨·, rfl⟩)
  | recvKeepalive => exact .inl (h.actionRecvKeepalive r)
  | recvIeee80211MgmtPacket => exact .inl h
  | notifyEvent event => exact .inl ⟨h.state, h.idtimercontrol, h.idtimerkeepalivedead, h.effects⟩
  | addStation radioid wlanid => exact (h.actionAddStation radioid wlanid r).imp_right (⟨·, rfl⟩)
  | deleteStation radioid => exact (h.actionDeleteStation radioid r).imp_right (⟨·, rfl⟩)
  | stationRoaming => exact .inl h

theorem Open.retransmitionTimeout : t.retransmitionTimeout.Open ∨ t.retransmitionTimeout.Closed := by
  unfold Thread.retransmitionTimeout
  split_ifs
  · exact .inr h.teardown
  · have counted : ({ t with retransmitcount := t.retransmitcount + 1 } : Thread ε).Open := h.of_same rfl rfl rfl rfl
    have freed : ({ t with retransmitcount := t.retransmitcount + 1, request := false } : Thread ε).Open :=
      h.of_same rfl rfl rfl rfl
    dsimp only
    split_ifs
    · exact .inr freed.teardown
    · exact .inl (counted.arm _ _ _)

theorem Open.hasexpired (index : ℕ) : (t.hasexpired index).Open ∨ (t.hasexpired index).Closed := by
  unfold Thread.hasexpired
  split
  · exact .inl h
  case h_2 timer _ =>
    have fired : ({ t with timers := t.timers.unset index } : Thread ε).Open := h.of_same rfl rfl rfl rfl
    cases timer.callback with
    | retransmition => exact fired.retransmitionTimeout
    | teardown => exact .inr fired.teardown

end

theorem Open.readPacket (h : t.Open) (packet : QueuedPacket ε) : (t.readPacket packet).1.Open := by
  cases packet with
  | silent code handshake =>
    simp only [Thread.readPacket]
    split_ifs
    · exact h.advance (by decide) _ _ _
    · exact h
  | text text => exact h

theorem Open.networkRead (h : t.Open) (r : Replies) : (t.networkRead r).1.Open ∨ (t.networkRead r).1.Closed ∧
      ((t.networkRead r).2 = some (.length noError) ∨ (t.networkRead r).2 = some (.length errorTimeout)) := by
  unfold Thread.networkRead
  split_ifs
  · exact .inl h
  split
  case h_1 action rest _ _ =>
    have taken : ({ t with action := rest } : Thread ε).Open := h.of_same rfl rfl rfl rfl
    have executed := (taken.log .action trivial).actionExecute r action
    exact executed.imp_right fun ⟨closed, result⟩ =>
      ⟨closed, .inl (congrArg (fun code => some (ReadResult.length code)) result)⟩
  case h_2 packet rest _ _ =>
    have taken : ({ t with packets := rest } : Thread ε).Open := h.of_same rfl rfl rfl rfl
    exact .inl (taken.readPacket packet)
  case h_3 index _ _ _ => exact (h.hasexpired index).imp_right (⟨·, .inr rfl⟩)
  case h_4 => exact .inl h

section

variable (h : t.Open)
include h

theorem Open.dfaStateJoin (executed : t.dfaStateJoin packet a = .ok t') : t'.Open ∨ t'.Closed := by
  obtain ⟨authorized, _, executed⟩ := Life.of_bind_ok executed
  obtain ⟨success, _, executed⟩ := Life.of_bind_ok executed
  cases executed
  have saved : ((t.withLife fun s => if authorized then { s with binding := packet.binding } else s).saveRemote
      packet).Open := by
    cases authorized <;> exact (h.withLife h.state).withLife h.state
  split
  · exact .inl (saved.advance (by decide) _ _ _)
  · exact .inr saved.teardown

theorem Open.saveRemote (packet : Packet ε) : (t.saveRemote packet).Open := h.withLife h.state

theorem Open.dfaStateConfigure (executed : t.dfaStateConfigure packet a = .ok t') : t'.Open ∨ t'.Closed := by
  obtain ⟨success, _, executed⟩ := Life.of_bind_ok executed
  cases executed
  split_ifs
  · exact .inl ((h.saveRemote packet).advance (by decide) _ _ _)
  · exact .inr (h.saveRemote packet).teardown

theorem Open.dfaStatePostjoin (executed : t.dfaStatePostjoin packet a = .ok t') : t'.Open ∨ t'.Closed := by
  unfold Thread.dfaStatePostjoin at executed
  split at executed
  · exact (h.changeState (by decide)).dfaStateConfigure executed
  · cases executed
    exact .inr (h.changeState (by decide)).teardown
  · cases executed
    exact .inr h.teardown

theorem Open.dfaStateDatacheck (executed : t.dfaStateDatacheck packet a = .ok t') : t'.Open ∨ t'.Closed := by
  obtain ⟨response, _, executed⟩ := Life.of_bind_ok executed
  cases executed
  split_ifs
  · exact .inl (((h.saveRemote packet).advance (by decide) _ _ _).arm _ _ _)
  · exact .inr (h.saveRemote packet).teardown

theorem Open.armEcho : t.armEcho.Open := h.arm _ _ _

theorem Open.runMessage (executed : t.runMessage packet a = .ok t') : t'.Open ∨ t'.Closed := by
  have answered : ({ t with request := false } : Thread ε).Open := h.of_same rfl rfl rfl rfl
  unfold Thread.runMessage at executed
  split at executed
  case h_7 =>
    cases executed
    split_ifs
    · exact .inl (h.saveRemote packet).armEcho
    · exact .inr h.teardown
  case h_8 =>
    obtain ⟨_, _, executed⟩ := Life.of_bind_ok executed
    cases executed
    exact .inl answered.armEcho
  case h_9 =>
    obtain ⟨_, _, executed⟩ := Life.of_bind_ok executed
    cases executed
    exact .inl answered.armEcho
  case h_10 =>
    cases executed
    exact .inl h
  all_goals
    cases executed
    exact .inl h.armEcho

theorem Open.nextSequence : t.nextSequence.Open := h.withLife h.state

theorem Open.dfaStateRun (executed : t.dfaStateRun packet a = .ok t') : t'.Open ∨ t'.Closed := by
  unfold Thread.dfaStateRun at executed
  split_ifs at executed
  · exact h.runMessage executed
  · exact h.nextSequence.runMessage executed
  · cases executed
    exact .inl h

theorem Open.dfaStateReset (packet : Packet ε) : (t.dfaStateReset packet).Open ∨ (t.dfaStateReset packet).Closed := by
  unfold Thread.dfaStateReset
  split_ifs
  · have freed : ({ t.nextSequence with request := false } : Thread ε).Open := h.nextSequence.of_same rfl rfl rfl rfl
    exact .inr freed.teardown
  · exact .inl h

theorem Open.dfaExecute (executed : t.dfaExecute packet a = .ok t') : t'.Open ∨ t'.Closed := by
  unfold Thread.dfaExecute at executed
  split at executed
  case h_1 => exact h.dfaStateJoin executed
  case h_2 => exact h.dfaStatePostjoin executed
  case h_4 => exact h.dfaStateConfigure executed
  case h_5 =>
    cases executed
    exact h.dfaStateReset packet
  case h_6 => exact h.dfaStateDatacheck executed
  case h_7 => exact h.dfaStateRun executed
  all_goals
    cases executed
    exact .inr h.teardown

end

theorem Open.handleText (h : t.Open) {text : PlainText ε} (handled : t.handleText code a text = some t') :
    t'.Open ∨ t'.Closed := by
  cases text with
  | unfinished | unreadable => exact .inl (some.inj handled ▸ h)
  | message packet =>
    simp only [Thread.handleText] at handled
    split_ifs at handled
    · exact .inl (some.inj handled ▸ h)
    · have notified : (t.withLife (·.notifyMessage code packet)).Open :=
        h.withLife (by rw [Life.notifyMessage_state]; exact h.state)
      exact (notified.log (.message packet.type) trivial).dfaExecute (Life.toOption_eq_some handled)
    · exact .inl (some.inj handled ▸ h)

theorem Open.turn (h : t.Open) (next : t.turn code r = some t') : t'.Open ∨ t'.Closed := by
  unfold Thread.turn at next
  have read := h.networkRead r
  split at next
  case h_1 u waits =>
    cases next
    rw [waits] at read
    exact read.imp_right (·.1)
  case h_2 u length result =>
    cases next
    rw [result] at read
    rcases read with stillOpen | ⟨closed, same⟩
    · split_ifs
      · exact .inr stillOpen.teardown
      · exact .inl stillOpen
      · exact .inl stillOpen
    · have harmless : ¬(length = errorShutdown ∨ length = errorClose) := by
        rcases same with same | same <;> cases same <;> decide
      rw [if_neg harmless, ite_self]
      exact .inr closed
  case h_3 u text result =>
    rw [result] at read
    rcases read with stillOpen | ⟨_, same⟩
    · exact stillOpen.handleText next
    · rcases same with same | same <;> cases same

theorem Open.start (h : t.Open) (enabledtls setup : Bool) :
    (t.start enabledtls setup).Open ∨ (t.start enabledtls setup).Closed := by
  unfold Thread.start
  split_ifs
  · exact .inl (h.advance (by decide) _ _ _)
  · exact .inr h.teardown
  · exact .inl (h.advance (by decide) _ _ _)

def EndsOnce (t : Thread ε) : Prop :=
  t.Open ∨ t.Closed ∨ t.life.state = .dead ∧ t.Finished [.enter .dead]

theorem EndsOnce.step {e : Event ε} (h : t.EndsOnce) (next : t.step code e = some t') : t'.EndsOnce := by
  have ended : t.Closed ∨ t.life.state = .dead ∧ t.Finished [.enter .dead] →
      t.life.state = .dtlsTeardown ∨ t.life.state = .dead := Or.imp (·.state) (·.1)
  cases e with
  | start enabledtls setup =>
    cases next
    split_ifs with idle
    · rcases h with h | h
      · exact (h.start enabledtls setup).imp_right .inl
      · have := ended h
        simp [idle] at this
    · exact h
  | turn r =>
    simp only [Thread.step] at next
    split_ifs at next with loops
    · rcases h with h | h
      · exact (h.turn next).imp_right .inl
      · rcases ended h with state | state <;> simp [Life.loops, state] at loops
    · exact some.inj next ▸ h
  | leave =>
    cases next
    split_ifs with down
    · rcases h with h | h | h
      · exact absurd down h.state.1
      · obtain ⟨before, trace, ongoing⟩ := h.finished.effects
        unfold Thread.changeState
        rw [if_neg (by rw [down]; nofun)]
        refine .inr (.inr ⟨Life.changeState_state _ _, h.finished.control, h.finished.keepalivedead,
          before, ?_, ongoing⟩)
        simp [Thread.log, Thread.withLife, trace]
      · exact absurd (down.symm.trans h.1) nofun
    · exact h
  | close | sendAction action | addPacket packet =>
    cases next
    exact h.imp (·.of_same rfl rfl rfl rfl)
      (Or.imp (fun h => ⟨h.state, h.finished.of_same rfl rfl⟩) (fun h => ⟨h.1, h.2.of_same rfl rfl⟩))

/-- In every run that ends, `ac_session_teardown` is called once, and after it nothing is executed and no timer is
set. -/
theorem run_teardown_once {es : List (Event ε)} (run : runFrom (step code) created es = some t)
    (ended : t.life.state = .dead) :
    ∃ before, t.trace = before ++ [.teardown, .unlink, .enter .dtlsTeardown, .enter .dead] ∧
      .teardown ∉ before ∧ .unlink ∉ before ∧ t.timers.pending 1 = none ∧ t.timers.pending 2 = none := by
  have once : t.EndsOnce := runFrom_invariant (fun _ _ _ h next => h.step next) (.inl open_created) run
  rcases once with isOpen | closed | ⟨_, finished⟩
  · exact absurd ended isOpen.state.2
  · exact absurd (closed.state.symm.trans ended) nofun
  · obtain ⟨before, trace, ongoing⟩ := finished.effects
    exact ⟨before, by simpa using trace, fun mem => ongoing _ mem, fun mem => ongoing _ mem, finished.control,
      finished.keepalivedead⟩

def silence : Replies where
  answers := ⟨false, false, false, false, false, none, false, false, false, false, false⟩
  wlan := false
  datachannel := false
  authorizeStation := false
  running := false
  expired := none

def timeoutRun : List (Event Unit) :=
  [.start false false, .turn { silence with expired := some 1 }, .sendAction .close, .close, .turn silence, .leave]

theorem run_teardown_once_timeout : ∃ t : Thread Unit, runFrom (step fun _ => 0) created timeoutRun = some t ∧
      ∃ before, t.trace = before ++ [.teardown, .unlink, .enter .dtlsTeardown, .enter .dead] ∧
        .teardown ∉ before ∧ .unlink ∉ before ∧ t.timers.pending 1 = none ∧ t.timers.pending 2 = none := by
  have states : (runFrom (step fun _ => 0) created timeoutRun).map
    (fun t : Thread Unit => t.life.state) = some .dead := by
    decide +kernel
  obtain ⟨t, run, ended⟩ := map_eq_some_iff.1 states
  exact ⟨t, run, run_teardown_once run ended⟩

end Thread

end OpenWifi.AcSession
