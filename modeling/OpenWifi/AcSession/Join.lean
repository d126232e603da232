import OpenWifi.Lib.Steps

/-!
# Joins of several sessions

`ac_dfa_state_join` looks through all sessions for the ids of the request, asks the backend, and stores the ids in the
session only then.
-/

namespace OpenWifi.AcSession

open Option

/-- `struct capwap_sessionid_element`. -/
abbrev SessionId := BitVec 128

/-- What `ac_dfa_state_join` reads of a request.  `wtpid` is the result of `ac_get_printable_wtpid`. -/
structure JoinRequest where
  validBinding : Bool
  isJoinRequest : Bool
  sessionid : SessionId
  wtpid : Option String
  deriving DecidableEq

/-- How far a session is in `ac_dfa_state_join`. -/
inductive Stage
  | waiting
  | sessionidUnused (request : JoinRequest)
  | wtpidUnused (request : JoinRequest) (wtpid : String)
  | authorized (request : JoinRequest) (wtpid : String)
  | wtpidStored (request : JoinRequest)
  | joined
  | refused
  deriving DecidableEq

def Stage.request : Stage → Option JoinRequest
  | sessionidUnused request => some request
  | wtpidUnused request _ => some request
  | authorized request _ => some request
  | wtpidStored request => some request
  | _ => none

structure Member where
  sessionid : SessionId := 0
  wtpid : Option String := none
  stage : Stage := .waiting
  deriving DecidableEq

/-- The list `g_ac.sessions` and the ids of each session. -/
structure Joins (ι : Type*) where
  sessions : List ι
  member : ι → Member

namespace Joins

variable {ι : Type*}

/-- `ac_has_sessionid`. -/
def hasSessionid (s : Joins ι) (sessionid : SessionId) : Bool :=
  s.sessions.any fun i => (s.member i).sessionid = sessionid

/-- `ac_has_wtpid`: an empty id counts as used. -/
def hasWtpid (s : Joins ι) (wtpid : String) : Bool :=
  wtpid = "" || s.sessions.any fun i => (s.member i).wtpid = some wtpid

inductive Event (ι : Type*)
  | connect (i : ι)
  | hasSessionid (i : ι) (request : JoinRequest)
  | hasWtpid (i : ι)
  | authorize (i : ι) (accepted : Bool)
  | storeWtpid (i : ι)
  | storeSessionid (i : ι)
  | leave (i : ι)

variable [DecidableEq ι]

def setMember (s : Joins ι) (i : ι) (member : Member) : Joins ι :=
  { s with member := Function.update s.member i member }

def setStage (s : Joins ι) (i : ι) (stage : Stage) : Joins ι :=
  s.setMember i { s.member i with stage := stage }

def afterSessionid (s : Joins ι) (request : JoinRequest) : Stage :=
  if request.validBinding ∧ request.isJoinRequest ∧ ¬ s.hasSessionid request.sessionid then
    .sessionidUnused request
  else .refused

def afterWtpid (s : Joins ι) (request : JoinRequest) : Stage :=
  match request.wtpid with
  | none => .refused
  | some wtpid => if s.hasWtpid wtpid then .refused else .wtpidUnused request wtpid

def step (s : Joins ι) : Event ι → Option (Joins ι)
  | .connect i => if i ∈ s.sessions then none else some { s.setMember i {} with sessions := s.sessions ++ [i] }
  | .hasSessionid i request =>
    if i ∈ s.sessions ∧ (s.member i).stage = .waiting then some (s.setStage i (s.afterSessionid request))
    else none
  | .hasWtpid i =>
    match (s.member i).stage with
    | .sessionidUnused request => some (s.setStage i (s.afterWtpid request))
    | _ => none
  | .authorize i accepted =>
    match (s.member i).stage with
    | .wtpidUnused request wtpid => some (s.setStage i (if accepted then .authorized request wtpid else .refused))
    | _ => none
  | .storeWtpid i =>
    match (s.member i).stage with
    | .authorized request wtpid =>
      some (s.setMember i { s.member i with wtpid := some wtpid, stage := .wtpidStored request })
    | _ => none
  | .storeSessionid i =>
    match (s.member i).stage with
    | .wtpidStored request => some (s.setMember i { s.member i with sessionid := request.sessionid, stage := .joined })
    | _ => none
  | .leave i =>
    if i ∈ s.sessions ∧ (s.member i).stage.request = none then
      some { s.setMember i {} with sessions := s.sessions.erase i }
    else none

end Joins

namespace Member

variable {m m' n : Member}

def searched (m : Member) : Option String :=
  match m.stage with
  | .wtpidUnused _ wtpid => some wtpid
  | .authorized _ wtpid => some wtpid
  | .wtpidStored _ => m.wtpid
  | _ => none

structure Proper (m : Member) : Prop where
  searched : ∀ wtpid request, m.searched = some wtpid → m.stage.request = some request → request.wtpid = some wtpid
  stored : ∀ request, m.stage = .wtpidStored request → m.wtpid.isSome

structure Compatible (m n : Member) : Prop where
  joined : m.stage = .joined → n.stage = .joined → m.sessionid ≠ n.sessionid ∧ m.wtpid ≠ n.wtpid
  sessionid : ∀ request, m.stage.request = some request → n.stage = .joined → n.sessionid ≠ request.sessionid
  wtpid : ∀ wtpid, m.searched = some wtpid → n.stage = .joined → n.wtpid ≠ some wtpid
  requests : ∀ request request', m.stage.request = some request → n.stage.request = some request' →
    request.sessionid ≠ request'.sessionid ∧ ∀ wtpid, request.wtpid = some wtpid → request'.wtpid ≠ some wtpid

structure Idle (m : Member) : Prop where
  joined : m.stage ≠ .joined
  request : m.stage.request = none
  searched : m.searched = none

theorem idle_new : Idle {} := ⟨by simp, rfl, rfl⟩

theorem idle_refused (m : Member) : Idle { m with stage := .refused } := ⟨by simp, rfl, rfl⟩

theorem Idle.proper (h : m.Idle) : m.Proper :=
  ⟨by simp [h.searched], fun request stored => by simpa [stored, Stage.request] using h.request⟩

theorem Idle.compatible (h : m.Idle) (n : Member) : m.Compatible n ∧ n.Compatible m := by
  constructor
  · exact ⟨fun joined => absurd joined h.joined, by simp [h.request], by simp [h.searched], by simp [h.request]⟩
  · exact ⟨fun _ joined => absurd joined h.joined, fun _ _ joined => absurd joined h.joined,
      fun _ _ joined => absurd joined h.joined, by simp [h.request]⟩

theorem Compatible.advance (h : m.Compatible n ∧ n.Compatible m) (notJoined : m'.stage ≠ .joined)
    (request : m'.stage.request = m.stage.request)
    (wtpid : ∀ wtpid, m'.searched = some wtpid → n.stage = .joined → n.wtpid ≠ some wtpid) :
    m'.Compatible n ∧ n.Compatible m' := by
  constructor
  · refine ⟨fun joined => absurd joined notJoined, ?_, wtpid, ?_⟩
    · simpa only [request] using h.1.sessionid
    · simpa only [request] using h.1.requests
  · refine ⟨fun _ joined => absurd joined notJoined, fun _ _ joined => absurd joined notJoined,
      fun _ _ joined => absurd joined notJoined, ?_⟩
    simpa only [request] using h.2.requests

theorem Compatible.join (h : m.Compatible n ∧ n.Compatible m) (proper : m.Proper) (proper' : n.Proper)
    {request : JoinRequest} (stage : m.stage = .wtpidStored request) :
    let m' := { m with sessionid := request.sessionid, stage := .joined }
    m'.Compatible n ∧ n.Compatible m' := by
  obtain ⟨wtpid, stored⟩ := isSome_iff_exists.1 (proper.stored request stage)
  have pending : m.stage.request = some request := by rw [stage]; rfl
  have searched : m.searched = some wtpid := by simp [Member.searched, stage, stored]
  have own : request.wtpid = some wtpid := proper.searched wtpid request searched pending
  have differ : n.stage = .joined → n.sessionid ≠ request.sessionid ∧ n.wtpid ≠ some wtpid :=
    fun joined => ⟨h.1.sessionid request pending joined, h.1.wtpid wtpid searched joined⟩
  dsimp only
  constructor
  · refine ⟨fun _ joined => ?_, by simp [Stage.request], by simp [Member.searched], by simp [Stage.request]⟩
    rw [stored]
    exact ⟨(differ joined).1.symm, (differ joined).2.symm⟩
  · refine ⟨fun joined _ => ?_, fun other pending' _ => ?_, fun id searched' _ => ?_, by simp [Stage.request]⟩
    · rw [stored]
      exact differ joined
    · exact (h.1.requests request other pending pending').1
    · -- the other session has searched for the id of its own request
      have busy : n.stage.request ≠ none := by
        intro idle
        revert searched' idle
        rcases n with ⟨sid, wid, _ | _ | _ | _ | _ | _ | _⟩ <;> simp [Member.searched, Stage.request]
      obtain ⟨other, pending'⟩ := ne_none_iff_exists'.1 busy
      have theirs := proper'.searched id other searched' pending'
      rw [stored]
      rintro ⟨⟩
      exact (h.1.requests request other pending pending').2 wtpid own theirs

end Member

namespace Joins

variable {ι : Type*} [DecidableEq ι] {s s' : Joins ι}

structure KeptApart (s : Joins ι) : Prop where
  listed : ∀ i, i ∉ s.sessions → s.member i = {}
  proper : ∀ i, (s.member i).Proper
  compatible : ∀ i j, i ≠ j → (s.member i).Compatible (s.member j)

def OneByOne (s : Joins ι) : Event ι → Prop
  | .hasSessionid _ request => request.validBinding → request.isJoinRequest →
    ∀ j other, (s.member j).stage.request = some other → other.sessionid ≠ request.sessionid ∧
      ∀ wtpid, request.wtpid = some wtpid → other.wtpid ≠ some wtpid
  | _ => True

variable {i : ι}

omit [DecidableEq ι] in
theorem KeptApart.mem (h : s.KeptApart) (stage : (s.member i).stage ≠ .waiting) : i ∈ s.sessions := by
  by_contra absent
  rw [h.listed i absent] at stage
  exact stage rfl

section

variable (h : s.KeptApart)
include h

variable {m : Member}

theorem KeptApart.change (sessions : List ι)
    (listed : ∀ j, j ∉ sessions → j ∉ s.sessions ∧ j ≠ i ∨ j = i ∧ m = {}) (proper : m.Proper)
    (compatible : ∀ j, j ≠ i → m.Compatible (s.member j) ∧ (s.member j).Compatible m) :
    KeptApart { s.setMember i m with sessions := sessions } := by
  refine ⟨fun j absent => ?_, fun j => ?_, fun j k ne => ?_⟩
  · dsimp [setMember]
    rcases listed j absent with ⟨absent, other⟩ | ⟨rfl, rfl⟩
    · rw [Function.update_of_ne other]
      exact h.listed j absent
    · exact Function.update_self ..
  · dsimp [setMember]
    rw [Function.update_apply]
    split
    · exact proper
    · exact h.proper j
  · dsimp [setMember]
    rw [Function.update_apply, Function.update_apply]
    split
    next here =>
      rw [if_neg fun there => ne (here.trans there.symm)]
      exact (compatible k fun there => ne (here.trans there.symm)).1
    next elsewhere =>
      split
      · exact (compatible j elsewhere).2
      · exact h.compatible j k ne

theorem KeptApart.setMember (mem : i ∈ s.sessions) (proper : m.Proper)
    (compatible : ∀ j, j ≠ i → m.Compatible (s.member j) ∧ (s.member j).Compatible m) :
    (s.setMember i m).KeptApart := by
  refine h.change s.sessions (fun j absent => .inl ⟨absent, ?_⟩) proper compatible
  rintro rfl
  exact absent mem

theorem KeptApart.refuse (mem : i ∈ s.sessions) : (s.setStage i .refused).KeptApart :=
  h.setMember mem (Member.idle_refused _).proper fun _ _ => (Member.idle_refused _).compatible _

theorem KeptApart.advance (mem : i ∈ s.sessions) (proper : m.Proper)
    (notJoined : m.stage ≠ .joined) (request : m.stage.request = (s.member i).stage.request)
    (unused : ∀ j wtpid, j ≠ i → m.searched = some wtpid → (s.member j).stage = .joined →
      (s.member j).wtpid ≠ some wtpid) :
    (s.setMember i m).KeptApart := by
  refine h.setMember mem proper fun j other => ?_
  exact Member.Compatible.advance ⟨h.compatible i j other.symm, h.compatible j i other⟩ notJoined request
    fun wtpid => unused j wtpid other

theorem KeptApart.afterSessionid {request : JoinRequest} (mem : i ∈ s.sessions)
    (oneByOne : s.OneByOne (.hasSessionid i request)) : (s.setStage i (s.afterSessionid request)).KeptApart := by
  rw [Joins.afterSessionid]
  split
  next unused =>
    refine h.setMember mem ⟨by simp [Member.searched], by simp⟩ fun j other => ⟨?_, ?_⟩
    · refine ⟨by simp, fun r pending joined => ?_, by simp [Member.searched], fun r r' pending pending' => ?_⟩
      · cases pending
        have there : j ∈ s.sessions := h.mem (by simp [joined])
        have absent := unused.2.2
        simp only [hasSessionid, List.any_eq_true, decide_eq_true_eq, not_exists, not_and] at absent
        exact absent j there
      · cases pending
        obtain ⟨sessionid, wtpid⟩ := oneByOne unused.1 unused.2.1 j r' pending'
        exact ⟨sessionid.symm, wtpid⟩
    · refine ⟨by simp, by simp, by simp, fun r r' pending pending' => ?_⟩
      cases pending'
      obtain ⟨sessionid, wtpid⟩ := oneByOne unused.1 unused.2.1 j r pending
      exact ⟨sessionid, fun id theirs ours => wtpid id ours theirs⟩
  · exact h.refuse mem

theorem KeptApart.afterWtpid {request : JoinRequest}
    (stage : (s.member i).stage = .sessionidUnused request) : (s.setStage i (s.afterWtpid request)).KeptApart := by
  have mem : i ∈ s.sessions := h.mem (by simp [stage])
  rw [Joins.afterWtpid]
  split
  · exact h.refuse mem
  next wtpid own =>
    split
    · exact h.refuse mem
    next unused =>
      refine h.advance mem ⟨fun id r searched pending => ?_, by simp⟩ (by simp) (by rw [stage]; rfl)
        fun j id other searched joined => ?_
      · cases pending
        rw [← some.inj searched]
        exact own
      · rw [← some.inj searched]
        have there : j ∈ s.sessions := h.mem (by simp [joined])
        simp only [hasWtpid, Bool.or_eq_true, List.any_eq_true, decide_eq_true_eq, not_or, not_exists,
          not_and] at unused
        exact unused.2 j there

theorem KeptApart.goOn {request : JoinRequest} {wtpid : String} (mem : i ∈ s.sessions)
    (pending : (s.member i).stage.request = some request)
    (found : (s.member i).searched = some wtpid) (request' : m.stage.request = some request)
    (searched : m.searched = some wtpid) (notJoined : m.stage ≠ .joined)
    (stored : ∀ r, m.stage = .wtpidStored r → m.wtpid.isSome) : (s.setMember i m).KeptApart := by
  refine h.advance mem ⟨fun id r search pending' => ?_, stored⟩ notJoined (request'.trans pending.symm)
    fun j id other search joined => ?_
  · exact (h.proper i).searched id r (found.trans (searched.symm.trans search))
      (pending.trans (request'.symm.trans pending'))
  · exact (h.compatible i j other.symm).wtpid id (found.trans (searched.symm.trans search)) joined

theorem KeptApart.step {e : Event ι} (oneByOne : s.OneByOne e) (stepped : s.step e = some s') : s'.KeptApart := by
  cases e with
  | connect i =>
    obtain ⟨-, ⟨⟩⟩ := ite_none_left_eq_some.1 stepped
    refine h.change _ (fun j absent => .inl ?_) Member.idle_new.proper fun j _ => Member.idle_new.compatible _
    simpa using absent
  | hasSessionid i request =>
    obtain ⟨here, ⟨⟩⟩ := ite_none_right_eq_some.1 stepped
    exact h.afterSessionid here.1 oneByOne
  | hasWtpid i =>
    simp only [Joins.step] at stepped
    split at stepped
    next request stage =>
      cases stepped
      exact h.afterWtpid stage
    · simp at stepped
  | authorize i accepted =>
    simp only [Joins.step] at stepped
    split at stepped
    next request wtpid stage =>
      cases stepped
      have mem : i ∈ s.sessions := h.mem (by simp [stage])
      split
      · exact h.goOn mem (by rw [stage]; rfl) (by simp only [Member.searched, stage]) rfl rfl (by simp) (by simp)
      · exact h.refuse mem
    · simp at stepped
  | storeWtpid i =>
    simp only [Joins.step] at stepped
    split at stepped
    next request wtpid stage =>
      cases stepped
      exact h.goOn (h.mem (by simp [stage])) (by rw [stage]; rfl) (by simp only [Member.searched, stage])
        rfl rfl (by simp) (by simp)
    · simp at stepped
  | storeSessionid i =>
    simp only [Joins.step] at stepped
    split at stepped
    next request stage =>
      cases stepped
      refine h.setMember (h.mem (by simp [stage])) ⟨by simp [Member.searched], by simp⟩ fun j other => ?_
      exact Member.Compatible.join ⟨h.compatible i j other.symm, h.compatible j i other⟩ (h.proper i)
        (h.proper j) stage
    · simp at stepped
  | leave i =>
    obtain ⟨-, ⟨⟩⟩ := ite_none_right_eq_some.1 stepped
    refine h.change _ (fun j absent => ?_) Member.idle_new.proper fun j _ => Member.idle_new.compatible _
    by_cases same : j = i
    · exact .inr ⟨same, rfl⟩
    · exact .inl ⟨by rwa [List.mem_erase_of_ne same] at absent, same⟩

end

def noSessions : Joins ι := { sessions := [], member := fun _ => {} }

omit [DecidableEq ι] in
theorem keptApart_noSessions : (noSessions : Joins ι).KeptApart :=
  ⟨fun _ _ => rfl, fun _ => Member.idle_new.proper, fun _ _ _ => (Member.idle_new.compatible _).1⟩

/-- If requests with equal ids are handled one after the other then no two sessions that have stored their ids share
one. -/
theorem run_unique {events : List (Event ι)} {s : Joins ι} (oneByOne : Along step OneByOne noSessions events)
    (run : runFrom step noSessions events = some s) (i j : ι) (ne : i ≠ j)
    (joined : (s.member i).stage = .joined) (joined' : (s.member j).stage = .joined) :
    (s.member i).sessionid ≠ (s.member j).sessionid ∧ (s.member i).wtpid ≠ (s.member j).wtpid := by
  have apart : s.KeptApart :=
    oneByOne.invariant (fun _ _ _ h one stepped => KeptApart.step h one stepped) keptApart_noSessions run
  exact (apart.compatible i j ne).joined joined joined'

def someRequest (sessionid : SessionId) (wtpid : String) : JoinRequest where
  validBinding := true
  isJoinRequest := true
  sessionid := sessionid
  wtpid := some wtpid

def joining (i : Bool) (request : JoinRequest) : List (Event Bool) :=
  [.connect i, .hasSessionid i request, .hasWtpid i, .authorize i true, .storeWtpid i, .storeSessionid i]

omit [DecidableEq ι] in
theorem oneByOne_of_idle {s : Joins ι} {request : JoinRequest}
    (idle : ∀ j, (s.member j).stage.request = none) : s.OneByOne (.hasSessionid i request) := by
  intro _ _ j other pending
  simp [idle j] at pending

theorem run_unique_two : ∃ s : Joins Bool,
    runFrom step noSessions (joining false (someRequest 1 "00:01") ++ joining true (someRequest 2 "00:02")) = some s ∧
    (s.member false).stage = .joined ∧ (s.member true).stage = .joined ∧
    (s.member false).sessionid ≠ (s.member true).sessionid ∧ (s.member false).wtpid ≠ (s.member true).wtpid := by
  obtain ⟨s, run, joined, joined'⟩ : ∃ s : Joins Bool,
      runFrom step noSessions (joining false (someRequest 1 "00:01") ++ joining true (someRequest 2 "00:02")) = some s ∧
      (s.member false).stage = .joined ∧ (s.member true).stage = .joined := ⟨_, rfl, by decide +kernel⟩
  have oneByOne : Along step OneByOne noSessions
      (joining false (someRequest 1 "00:01") ++ joining true (someRequest 2 "00:02")) := by
    refine ⟨trivial, fun s₁ h₁ => ⟨oneByOne_of_idle ?_, fun s₂ h₂ => ⟨trivial, fun s₃ h₃ => ⟨trivial,
      fun s₄ h₄ => ⟨trivial, fun s₅ h₅ => ⟨trivial, fun s₆ h₆ => ⟨trivial, fun s₇ h₇ =>
      ⟨oneByOne_of_idle ?_, fun _ _ => ⟨trivial, fun _ _ => ⟨trivial, fun _ _ => ⟨trivial, fun _ _ =>
      ⟨trivial, fun _ _ => trivial⟩⟩⟩⟩⟩⟩⟩⟩⟩⟩⟩⟩
    · cases h₁
      decide +kernel
    · cases h₁
      cases h₂
      cases h₃
      cases h₄
      cases h₅
      cases h₆
      cases h₇
      decide +kernel
  exact ⟨s, run, joined, joined', run_unique oneByOne run false true (by decide) joined joined'⟩

/-- Two sessions search before either of them has stored its ids. -/
theorem two_joins_share_ids : ∃ s : Joins Bool, runFrom step noSessions
    [.connect false, .connect true, .hasSessionid false (someRequest 1 "00:01"),
      .hasSessionid true (someRequest 1 "00:01"), .hasWtpid false, .hasWtpid true, .authorize false true,
      .authorize true true, .storeWtpid false, .storeSessionid false, .storeWtpid true, .storeSessionid true] = some s ∧
    (s.member false).stage = .joined ∧ (s.member true).stage = .joined ∧
    (s.member false).sessionid = (s.member true).sessionid ∧ (s.member false).wtpid = (s.member true).wtpid :=
  ⟨_, rfl, by decide +kernel⟩

end Joins

end OpenWifi.AcSession
