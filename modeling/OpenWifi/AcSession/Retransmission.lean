import OpenWifi.AcSession.Turns

/-!
# Outstanding requests and the control timer

One timer sends an unanswered request again and ends a session that has gone silent.  `Guarded` says that it serves the
first purpose while a request is outstanding.
-/

namespace OpenWifi.AcSession

namespace Session

variable {s s' : Session} {packet : ControlPacket} {env : Env}

def Guarded (s : Session) : Prop :=
  s.state ≠ .dtlsTeardown → s.requestfragmentpacket.isSome → s.timercontrol = some ⟨retransmitInterval, .retransmition⟩

theorem Guarded.of_none (h : s.requestfragmentpacket = none) : s.Guarded := by
  intro _ outstanding
  simp [h] at outstanding

theorem Guarded.of_teardown (h : s.state = .dtlsTeardown) : s.Guarded := fun running => absurd h running

def Undisturbed (s : Session) : Event → Prop
  | .receive packet env =>
    s.state = .run → s.requestfragmentpacket.isSome → s.isRepeated packet = false →
      s.Handled packet → rearms packet env = false
  | _ => True

/-- An action is executed only while no request is outstanding, and it leaves either none or a request
that has just been sent. -/
theorem actionExecute_guarded (free : s.requestfragmentpacket = none) (env : Env) (action : Action) :
    (s.actionExecute env action).Guarded := by
  rcases s.actionExecute_cases env action with ⟨same, -⟩ | ⟨type, element, accepted, state, eq⟩
  · exact Guarded.of_none (same.trans free)
  · rw [eq]
    rcases (s.sendRequest_cases type element accepted env).2 with none | ⟨-, timer⟩
    · exact Guarded.of_none none
    · exact fun _ _ => timer

theorem callTimer_guarded (s : Session) (callback : Timeout) : (s.callTimer callback).Guarded := by
  rcases (s.callTimer_cases callback).2 with none | ⟨-, down | timer⟩
  · exact Guarded.of_none none
  · exact Guarded.of_teardown down
  · exact fun _ _ => timer

theorem dfaStateRun_guarded_iff (guarded : s.Guarded) (running : s.state = .run)
    (h : s.dfaStateRun packet env = some s') :
    s'.Guarded ↔ (s.requestfragmentpacket.isSome → s.Handled packet → rearms packet env = false) := by
  by_cases handled : s.Handled packet
  · rw [dfaStateRun_of_handled handled] at h
    obtain ⟨state, request, timer, -⟩ := s.numbered_control packet
    rcases (handleMessage_cases h).2 with ⟨calm, none | ⟨-, down⟩⟩ | ⟨same, state', timer'⟩
    · exact iff_of_true (Guarded.of_none none) fun _ _ => calm
    · exact iff_of_true (Guarded.of_teardown down) fun _ _ => calm
    · rw [Guarded, same, state', timer', state, request, timer]
      by_cases rearm : rearms packet env
      · -- the request is still outstanding, and the timer is the other one
        simp [running, handled, rearm]
      · rw [if_neg rearm]
        exact iff_of_true guarded fun _ _ => by simpa using rearm
  · rw [dfaStateRun_of_not_handled handled] at h
    cases h
    exact iff_of_true guarded fun _ yes => absurd yes handled

theorem dfaStateReset_guarded (guarded : s.Guarded) (packet : ControlPacket) : (s.dfaStateReset packet).Guarded := by
  rw [dfaStateReset]
  split
  · exact Guarded.of_teardown rfl
  · exact guarded

theorem dfaExecute_guarded_iff (guarded : s.Guarded) (receives : s.Receives packet)
    (h : s.dfaExecute packet env = some s') : s'.Guarded ↔ s.Undisturbed (.receive packet env) := by
  cases state : s.state with
  | run =>
    simp only [dfaExecute, state] at h
    rw [dfaStateRun_guarded_iff guarded state h]
    simp [Undisturbed, state, receives.2]
  | reset =>
    simp only [dfaExecute, state, Option.some.injEq] at h
    subst h
    exact iff_of_true (dfaStateReset_guarded guarded packet) (by simp [Undisturbed, state])
  | dataCheckToRun | dtlsTeardown =>
    simp only [dfaExecute, state, Option.some.injEq] at h
    subst h
    exact iff_of_true (Guarded.of_teardown rfl) (by simp [Undisturbed, state])

theorem Undisturbed.of_not_receives {e : Event}
    (h : ∀ packet env, e = .receive packet env → ¬ s.Receives packet) : s.Undisturbed e := by
  cases e with
  | receive packet env =>
    intro running outstanding fresh
    have reads : s.reads := by simp [Session.reads, running, outstanding]
    exact absurd ⟨reads, fresh⟩ (h packet env rfl)
  | _ => trivial

theorem step_guarded_iff {e : Event} (guarded : s.Guarded) (h : s.step e = some s') : s'.Guarded ↔ s.Undisturbed e := by
  rcases step_cases h with ⟨same, ignored⟩ | ⟨env, action, t, rfl, rfl, free⟩ |
    ⟨packet, env, rfl, receives, executed⟩ | ⟨callback, t, rfl, -, -, other⟩
  · refine iff_of_true ?_ (.of_not_receives ignored)
    rw [Guarded, same.state, same.request, same.timer]
    exact guarded
  · exact iff_of_true (actionExecute_guarded free env action) trivial
  · exact dfaExecute_guarded_iff guarded receives executed
  · exact iff_of_true (callTimer_guarded _ _)
      (.of_not_receives fun packet env eq => absurd eq (other packet env))

def Ended (s : Session) : Prop := s.state = .dtlsTeardown ∧ s.requestfragmentpacket = none

section

variable (guarded : s.Guarded) (running : s.state ≠ .dtlsTeardown) (outstanding : s.requestfragmentpacket.isSome)
include guarded running outstanding

/-- When the control timer of a guarded request expires, the request is sent again under the same
guard, or the session ends. -/
theorem controlTimeout_cases : ∃ t, s.step .controlTimeout = some t ∧
      (t.Ended ∨ s.retransmitcount + 1 < maxRetransmit ∧ t.Guarded ∧ t.state ≠ .dtlsTeardown ∧
        t.requestfragmentpacket.isSome ∧ t.retransmitcount = s.retransmitcount + 1) := by
  obtain ⟨request, some⟩ := Option.isSome_iff_exists.1 outstanding
  have read : s.reads := by simp [reads, running, some]
  refine ⟨({ s with timercontrol := none }).retransmitionTimeout,
    by simp only [step, guarded running outstanding, read, if_true, callTimer], ?_⟩
  simp only [retransmitionTimeout, some]
  split
  · exact .inl ⟨rfl, rfl⟩
  next few => exact .inr ⟨by omega, fun _ _ => rfl, running, by simp [setRetransmitTimer], rfl⟩

theorem exists_ended_of_le {k : ℕ} (left : maxRetransmit ≤ s.retransmitcount + k + 1) :
    ∃ n ≤ k + 1, ∃ t, runFrom step s (List.replicate n .controlTimeout) = some t ∧ t.Ended := by
  -- on the number of times the request may still be sent
  induction k generalizing s with
  | zero =>
    obtain ⟨t, stepped, ended | ⟨few, -⟩⟩ := controlTimeout_cases guarded running outstanding
    · exact ⟨1, by omega, t, by simp [runFrom, stepped], ended⟩
    · omega
  | succ k ih =>
    obtain ⟨t, stepped, ended | ⟨few, guarded, running, outstanding, count⟩⟩ :=
      controlTimeout_cases guarded running outstanding
    · exact ⟨1, by omega, t, by simp [runFrom, stepped], ended⟩
    · obtain ⟨n, bound, u, run, ended⟩ := ih guarded running outstanding (by omega)
      exact ⟨n + 1, by omega, u, by rw [List.replicate_succ, runFrom, stepped]; exact run, ended⟩

theorem exists_ended : ∃ n ≤ maxRetransmit, ∃ t, runFrom step s (List.replicate n .controlTimeout) = some t ∧ t.Ended :=
  exists_ended_of_le guarded running outstanding (by simp [maxRetransmit])

end

/-- In a run that is never disturbed, an outstanding request is guarded, and if it is not answered the session ends. -/
theorem run_guarded {events : List Event} (start : s.requestfragmentpacket = none)
    (undisturbed : Along step Undisturbed s events) (run : runFrom step s events = some s') :
    s'.Guarded ∧ (s'.state ≠ .dtlsTeardown → s'.requestfragmentpacket.isSome →
      ∃ n ≤ maxRetransmit, ∃ t, runFrom step s' (List.replicate n .controlTimeout) = some t ∧ t.Ended) := by
  have guarded : s'.Guarded :=
    undisturbed.invariant (fun _ _ _ guarded calm stepped => (step_guarded_iff guarded stepped).2 calm)
      (Guarded.of_none start) run
  exact ⟨guarded, exists_ended guarded⟩

/-- The request for a WLAN is sent again when the timer expires, and no answer ends the session. -/
theorem run_guarded_addWlan :
    ∃ s', runFrom step started [.sendAction (.addWlan guestWlan), .execute agreeable, .controlTimeout] =
      some s' ∧ s'.requestfragmentpacket.isSome ∧ s'.Guarded ∧
      ∃ n ≤ maxRetransmit, ∃ t, runFrom step s' (List.replicate n .controlTimeout) = some t ∧ t.Ended := by
  obtain ⟨s', run, running, outstanding⟩ :
      ∃ s', runFrom step started [.sendAction (.addWlan guestWlan), .execute agreeable,
        .controlTimeout] = some s' ∧ s'.state = .run ∧ s'.requestfragmentpacket.isSome :=
    ⟨_, rfl, rfl, rfl⟩
  have undisturbed : Along step Undisturbed started [.sendAction (.addWlan guestWlan),
      .execute agreeable, .controlTimeout] :=
    ⟨trivial, fun _ _ => ⟨trivial, fun _ _ => ⟨trivial, fun _ _ => trivial⟩⟩⟩
  obtain ⟨guarded, ends⟩ := run_guarded (s := started) rfl undisturbed run
  exact ⟨s', run, outstanding, guarded, ends (by rw [running]; decide) outstanding⟩

/-- An echo request while the request for a WLAN is outstanding: the request stays, the timer that
would send it again does not. -/
theorem echo_disarms_retransmition : ∃ s', runFrom step started [.sendAction (.addWlan guestWlan), .execute agreeable,
        .receive (emptyMessage .echoRequest 7) agreeable] = some s' ∧
      s'.state = .run ∧ s'.requestfragmentpacket.isSome ∧
      s'.timercontrol = some ⟨maxEchoInterval, .teardown⟩ ∧ ¬ s'.Guarded := by
  refine ⟨_, rfl, rfl, rfl, rfl, fun guarded => ?_⟩
  exact absurd (guarded (by decide) rfl) (by decide)

end Session

end OpenWifi.AcSession
