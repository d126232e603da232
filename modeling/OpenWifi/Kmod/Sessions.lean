import Mathlib.Data.List.Nodup
import OpenWifi.Lib.HashChain
import OpenWifi.Lib.Steps

/-!
# The session tables of the kernel module

A session is created in the list of sessions that are being set up.  The first keep-alive of its peer moves it to the
list of running sessions and enters it in two hash tables (`kmod/capwap_private.c`).
-/

namespace OpenWifi.Kmod

open List Option

/-- `struct sc_capwap_sessionid_element`. -/
abbrev SessionId := BitVec 128

/-- `union capwap_addr`, as far as `sc_addr_compare` reads it. -/
inductive PeerAddr
  | inet (addr : BitVec 32) (port : BitVec 16)
  | inet6 (addr : BitVec 128) (port : BitVec 16)
  deriving DecidableEq

/-- `struct sc_capwap_session_priv`; the peer is `none` as long as the family is `AF_UNSPEC`. -/
structure SessionPriv where
  sessionid : SessionId
  peeraddr : Option PeerAddr
  deriving DecidableEq

/-- `SESSION_HASH_SIZE`. -/
def sessionHashSize : ℕ := 65536

/-- `sc_capwap_hash_sessionid`. -/
def hashSessionid (sessionid : SessionId) : ℕ :=
  (sessionid.extractLsb' 0 32 ^^^ sessionid.extractLsb' 32 32 ^^^ sessionid.extractLsb' 64 32 ^^^
    sessionid.extractLsb' 96 32).toNat % sessionHashSize

/-- The tables; `session` is the memory, without what has been freed.  `hashIpaddr` is `sc_capwap_hash_ipaddr`. -/
structure SessionTables where
  hashIpaddr : PeerAddr → ℕ
  session : ℕ → Option SessionPriv
  setup : List ℕ
  running : List ℕ
  ipaddr : Chains ℕ ℕ
  sessionid : Chains ℕ ℕ

namespace SessionTables

def peer (t : SessionTables) (p : ℕ) : Option PeerAddr := (t.session p).bind SessionPriv.peeraddr

def id (t : SessionTables) (p : ℕ) : Option SessionId := (t.session p).map SessionPriv.sessionid

/-- `sc_capwap_getsession_ipaddr`; a chain has at most the running sessions. -/
def getsessionIpaddr (t : SessionTables) (sockaddr : PeerAddr) : Option ℕ :=
  t.ipaddr.find t.running.length (t.hashIpaddr sockaddr) fun p => t.peer p = some sockaddr

/-- `sc_capwap_getsession_sessionid`. -/
def getsessionSessionid (t : SessionTables) (sessionid : SessionId) : Option ℕ :=
  t.sessionid.find t.running.length (hashSessionid sessionid) fun p => t.id p = some sessionid

def findSetup (t : SessionTables) (sessionid : SessionId) : Option ℕ :=
  t.setup.find? fun p => t.id p = some sessionid

/-- `sc_capwap_newsession`, with the memory that `kzalloc` gives. -/
def newsession (t : SessionTables) (p : ℕ) (sessionid : SessionId) : SessionTables :=
  { t with
    session := Function.update t.session p (some { sessionid := sessionid, peeraddr := none })
    setup := p :: t.setup }

def promote (t : SessionTables) (p : ℕ) (sockaddr : PeerAddr) (sessionid : SessionId) : SessionTables :=
  { t with
    session := Function.update t.session p
      ((t.session p).map fun session => { session with peeraddr := some sockaddr })
    setup := t.setup.erase p
    running := p :: t.running
    ipaddr := t.ipaddr.push (t.hashIpaddr sockaddr) p
    sessionid := t.sessionid.push (hashSessionid sessionid) p }

/-- `sc_capwap_recvunknownkeepalive`. -/
def recvunknownkeepalive (t : SessionTables) (sockaddr : PeerAddr) (sessionid : SessionId) : SessionTables :=
  match t.findSetup sessionid with
  | none => t
  | some p => t.promote p sockaddr sessionid

/-- `sc_capwap_parsingpacket` for a keep-alive; `sessionid` is the first session id in the message. -/
def parsingKeepalive (t : SessionTables) (sockaddr : PeerAddr) (sessionid : Option SessionId) : SessionTables :=
  match sessionid with
  | none => t
  | some sessionid =>
    match t.getsessionIpaddr sockaddr with
    | none => t.recvunknownkeepalive sockaddr sessionid
    | some _ => t

def unhash (t : SessionTables) (p : ℕ) (session : SessionPriv) : SessionTables :=
  match session.peeraddr with
  | none => t
  | some sockaddr =>
    { t with
      ipaddr := t.ipaddr.unlink t.running.length (t.hashIpaddr sockaddr) p
      sessionid := t.sessionid.unlink t.running.length (hashSessionid session.sessionid) p }

/-- `sc_capwap_closesession`, from the tables on. -/
def closesession (t : SessionTables) (p : ℕ) : SessionTables :=
  match t.session p with
  | none => t
  | some session =>
    let t := t.unhash p session
    { t with
      setup := t.setup.erase p
      running := t.running.erase p
      session := Function.update t.session p none }

/-- `sc_capwap_deletesession`. -/
def deletesession (t : SessionTables) (sessionid : SessionId) : SessionTables :=
  match t.getsessionSessionid sessionid with
  | some p => t.closesession p
  | none =>
    match t.findSetup sessionid with
    | some p => t.closesession p
    | none => t

inductive Event
  | newsession (p : ℕ) (sessionid : SessionId)
  | keepalive (sockaddr : PeerAddr) (sessionid : Option SessionId)
  | deletesession (sessionid : SessionId)

/-- The tables after an event; `kzalloc` gives memory that is not in use. -/
def step (t : SessionTables) : Event → Option SessionTables
  | .newsession p sessionid => if (t.session p).isSome then none else some (t.newsession p sessionid)
  | .keepalive sockaddr sessionid => some (t.parsingKeepalive sockaddr sessionid)
  | .deletesession sessionid => some (t.deletesession sessionid)

def Distinct (t : SessionTables) : Event → Prop
  | .newsession _ sessionid => ∀ p, t.id p ≠ some sessionid
  | _ => True

def initial (hashIpaddr : PeerAddr → ℕ) : SessionTables where
  hashIpaddr := hashIpaddr
  session := fun _ => none
  setup := []
  running := []
  ipaddr := { head := fun _ => none, next := fun _ => none }
  sessionid := { head := fun _ => none, next := fun _ => none }

variable {t t' : SessionTables}

def addrHash (t : SessionTables) (p : ℕ) : ℕ := ((t.peer p).map t.hashIpaddr).getD 0

def idHash (t : SessionTables) (p : ℕ) : ℕ := ((t.id p).map hashSessionid).getD 0

/-- A session is in one list, once; the running sessions are those with a peer, and they are in the hash tables; ids and
peers differ. -/
structure Consistent (t : SessionTables) : Prop where
  setup_nodup : t.setup.Nodup
  running_nodup : t.running.Nodup
  listed : ∀ p, (t.session p).isSome ↔ p ∈ t.setup ∨ p ∈ t.running
  unconnected : ∀ p ∈ t.setup, t.peer p = none
  connected : ∀ p ∈ t.running, (t.peer p).isSome
  ids : ∀ p q, (t.id p).isSome → t.id p = t.id q → p = q
  peers : ∀ p q, (t.peer p).isSome → t.peer p = t.peer q → p = q
  ipaddr : t.ipaddr.Holds t.addrHash t.running
  sessionid : t.sessionid.Holds t.idHash t.running

theorem consistent_initial (hashIpaddr : PeerAddr → ℕ) : (initial hashIpaddr).Consistent := by
  refine ⟨nodup_nil, nodup_nil, by simp [initial], by simp [initial], by simp [initial],
    by simp [initial, id], by simp [initial, peer], Chains.holds_nil fun _ => rfl,
    Chains.holds_nil fun _ => rfl⟩

variable {p : ℕ}

theorem Consistent.disjoint (h : t.Consistent) (setup : p ∈ t.setup) : p ∉ t.running := by
  intro running
  have := h.connected p running
  simp [h.unconnected p setup] at this

theorem Consistent.mem_running (h : t.Consistent) : p ∈ t.running ↔ (t.peer p).isSome := by
  refine ⟨h.connected p, fun some_ => ?_⟩
  have allocated : (t.session p).isSome := by
    cases session : t.session p with
    | none => simp [peer, session] at some_
    | some _ => rfl
  refine ((h.listed p).1 allocated).resolve_left fun setup => ?_
  simp [h.unconnected p setup] at some_

theorem Consistent.getsessionIpaddr_eq (h : t.Consistent) {sockaddr : PeerAddr} :
    t.getsessionIpaddr sockaddr = some p ↔ t.peer p = some sockaddr := by
  constructor
  · intro found
    simpa using (h.ipaddr.of_find_eq_some (Nat.le_refl _) found).2
  · intro peer
    have bucket : t.addrHash p = t.hashIpaddr sockaddr := by simp [addrHash, peer]
    rw [getsessionIpaddr, ← bucket]
    refine h.ipaddr.find_eq_some (h.mem_running.2 (by simp [peer])) (by simpa using peer)
      (fun q mem same => ?_) (Nat.le_refl _)
    exact h.peers q p (h.connected q mem) ((of_decide_eq_true same).trans peer.symm)

variable {sessionid : SessionId}

theorem Consistent.getsessionSessionid_eq (h : t.Consistent) :
    t.getsessionSessionid sessionid = some p ↔ p ∈ t.running ∧ t.id p = some sessionid := by
  constructor
  · intro found
    simpa using h.sessionid.of_find_eq_some (Nat.le_refl _) found
  · rintro ⟨there, own⟩
    have bucket : t.idHash p = hashSessionid sessionid := by simp [idHash, own]
    rw [getsessionSessionid, ← bucket]
    refine h.sessionid.find_eq_some there (by simpa using own) (fun q mem same => ?_) (Nat.le_refl _)
    have same : t.id q = some sessionid := of_decide_eq_true same
    exact h.ids q p (by simp [same]) (same.trans own.symm)

theorem differ_update {K : Type} {key key' : ℕ → Option K} {value : Option K}
    (differ : ∀ p q, (key p).isSome → key p = key q → p = q) (eq : ∀ q, key' q = if q = p then value else key q)
    (unused : ∀ q, ∀ v ∈ value, key q ≠ some v) (q r : ℕ) (some_ : (key' q).isSome)
    (same : key' q = key' r) : q = r := by
  obtain ⟨v, value_⟩ := isSome_iff_exists.1 some_
  have value' := same.symm.trans value_
  rw [eq] at value_ value'
  split at value_ <;> split at value'
  · simp_all
  · exact absurd value' (unused r v value_)
  · exact absurd value_ (unused q v value')
  · exact differ q r (by simp [value_]) (value_.trans value'.symm)

theorem Consistent.newsession (h : t.Consistent)
    (fresh : t.session p = none) (distinct : ∀ q, t.id q ≠ some sessionid) : (t.newsession p sessionid).Consistent := by
  have unlisted : p ∉ t.setup ∧ p ∉ t.running := by
    have := (h.listed p).not.1 (by simp [fresh])
    tauto
  have session : ∀ q, (t.newsession p sessionid).session q =
      if q = p then some { sessionid := sessionid, peeraddr := none } else t.session q := fun q =>
    Function.update_apply ..
  have id : ∀ q, (t.newsession p sessionid).id q = if q = p then some sessionid else t.id q := by
    intro q
    rw [SessionTables.id, session]
    split <;> rfl
  have peer : ∀ q, (t.newsession p sessionid).peer q = t.peer q := by
    intro q
    rw [SessionTables.peer, session]
    split
    next same => simp [same, SessionTables.peer, fresh]
    · rfl
  refine ⟨nodup_cons.2 ⟨unlisted.1, h.setup_nodup⟩, h.running_nodup, fun q => ?_, fun q mem => ?_, ?_,
    differ_update h.ids id (by simpa using distinct), ?_, ?_, ?_⟩
  · rw [session]
    show _ ↔ q ∈ p :: t.setup ∨ q ∈ t.running
    by_cases here : q = p
    · simp [here]
    · simp [here, h.listed q]
  · rw [peer]
    rcases mem_cons.1 mem with rfl | mem
    · simp [SessionTables.peer, fresh]
    · exact h.unconnected q mem
  · intro q mem
    rw [peer]
    exact h.connected q mem
  · simpa only [peer] using h.peers
  · refine h.ipaddr.congr (fun _ => .rfl) fun q _ => ?_
    simp only [addrHash, peer]
    rfl
  · refine h.sessionid.congr (fun _ => .rfl) fun q mem => ?_
    have ne : q ≠ p := by
      rintro rfl
      exact unlisted.2 mem
    simp [idHash, id, if_neg ne]

theorem Consistent.promote (h : t.Consistent) {sockaddr : PeerAddr}
    (setup : p ∈ t.setup) (own : t.id p = some sessionid) (unused : ∀ q, t.peer q ≠ some sockaddr) :
    (t.promote p sockaddr sessionid).Consistent := by
  have notRunning := h.disjoint setup
  obtain ⟨priv, allocated⟩ := isSome_iff_exists.1 ((h.listed p).2 (.inl setup))
  have session : ∀ q, (t.promote p sockaddr sessionid).session q =
      if q = p then some { priv with peeraddr := some sockaddr } else t.session q := by
    intro q
    simp [SessionTables.promote, Function.update_apply, allocated, map_some]
  have id : ∀ q, (t.promote p sockaddr sessionid).id q = t.id q := by
    intro q
    rw [SessionTables.id, session]
    split
    next same => simp [same, SessionTables.id, allocated]
    · rfl
  have peer : ∀ q, (t.promote p sockaddr sessionid).peer q = if q = p then some sockaddr else t.peer q := by
    intro q
    rw [SessionTables.peer, session]
    split <;> rfl
  refine ⟨h.setup_nodup.erase p, nodup_cons.2 ⟨notRunning, h.running_nodup⟩, fun q => ?_,
    fun q mem => ?_, fun q mem => ?_, ?_, differ_update h.peers peer (by simpa using unused), ?_, ?_⟩
  · rw [session]
    show _ ↔ q ∈ t.setup.erase p ∨ q ∈ p :: t.running
    rw [h.setup_nodup.mem_erase_iff, mem_cons]
    by_cases here : q = p
    · simp [here]
    · simp [here, h.listed q]
  · obtain ⟨other, mem⟩ := h.setup_nodup.mem_erase_iff.1 mem
    rw [peer, if_neg other]
    exact h.unconnected q mem
  · rw [peer]
    split
    · rfl
    next other => exact h.connected q ((mem_cons.1 mem).resolve_left other)
  · simpa only [id] using h.ids
  · have same : ∀ q ∈ t.running, (t.promote p sockaddr sessionid).addrHash q = t.addrHash q := by
      intro q mem
      have ne : q ≠ p := by
        rintro rfl
        exact notRunning mem
      rw [addrHash, peer, if_neg ne]
      rfl
    have bucket : (t.promote p sockaddr sessionid).addrHash p = t.hashIpaddr sockaddr := by
      rw [addrHash, peer, if_pos rfl]
      rfl
    have held := (h.ipaddr.congr (fun _ => .rfl) same).push notRunning
    rwa [bucket] at held
  · have same : (t.promote p sockaddr sessionid).idHash = t.idHash := by
      funext q
      rw [idHash, id]
      rfl
    have bucket : t.idHash p = hashSessionid sessionid := by simp [idHash, own]
    rw [same]
    have held := h.sessionid.push notRunning
    rwa [bucket] at held

theorem Consistent.unhash (h : t.Consistent) {session : SessionPriv} (allocated : t.session p = some session) :
    (t.unhash p session).ipaddr.Holds t.addrHash (t.running.erase p) ∧
      (t.unhash p session).sessionid.Holds t.idHash (t.running.erase p) := by
  have erased : ∀ q, q ∈ t.running.erase p ↔ q ∈ t.running.filter (· ≠ p) := by
    intro q
    rw [h.running_nodup.mem_erase_iff, mem_filter]
    simp [and_comm]
  cases connected : session.peeraddr with
  | none =>
    -- it is not in the hash tables
    have absent : p ∉ t.running := by
      rw [h.mem_running]
      simp [peer, allocated, connected]
    rw [erase_of_not_mem absent]
    simp only [SessionTables.unhash, connected]
    exact ⟨h.ipaddr, h.sessionid⟩
  | some sockaddr =>
    have there : p ∈ t.running := by
      rw [h.mem_running]
      simp [peer, allocated, connected]
    have bucket : t.addrHash p = t.hashIpaddr sockaddr := by simp [addrHash, peer, allocated, connected]
    have bucket' : t.idHash p = hashSessionid session.sessionid := by simp [idHash, id, allocated]
    simp only [SessionTables.unhash, connected]
    rw [← bucket, ← bucket']
    exact ⟨(h.ipaddr.unlink there (Nat.le_refl _)).congr erased fun _ _ => rfl,
      (h.sessionid.unlink there (Nat.le_refl _)).congr erased fun _ _ => rfl⟩

theorem Consistent.closesession (h : t.Consistent) (p : ℕ) : (t.closesession p).Consistent := by
  cases allocated : t.session p with
  | none =>
    simp only [SessionTables.closesession, allocated]
    exact h
  | some priv =>
    obtain ⟨ipaddr, sessionid⟩ := h.unhash allocated
    have lists : (t.unhash p priv).setup = t.setup ∧ (t.unhash p priv).running = t.running ∧
        (t.unhash p priv).session = t.session ∧ (t.unhash p priv).hashIpaddr = t.hashIpaddr := by
      unfold SessionTables.unhash
      split <;> exact ⟨rfl, rfl, rfl, rfl⟩
    have setup : (t.closesession p).setup = t.setup.erase p := by
      simp [SessionTables.closesession, allocated, lists]
    have running : (t.closesession p).running = t.running.erase p := by
      simp [SessionTables.closesession, allocated, lists]
    have session : ∀ q, (t.closesession p).session q = if q = p then none else t.session q := by
      intro q
      simp [SessionTables.closesession, allocated, lists, Function.update_apply]
    have id : ∀ q, (t.closesession p).id q = if q = p then none else t.id q := by
      intro q
      rw [SessionTables.id, session]
      split <;> rfl
    have peer : ∀ q, (t.closesession p).peer q = if q = p then none else t.peer q := by
      intro q
      rw [SessionTables.peer, session]
      split <;> rfl
    have hash : (t.closesession p).hashIpaddr = t.hashIpaddr := by
      simp [SessionTables.closesession, allocated, lists]
    refine ⟨?_, ?_, fun q => ?_, fun q mem => ?_, fun q mem => ?_, differ_update h.ids id nofun,
      differ_update h.peers peer nofun, ?_, ?_⟩
    · rw [setup]
      exact h.setup_nodup.erase p
    · rw [running]
      exact h.running_nodup.erase p
    · rw [session, setup, running, h.setup_nodup.mem_erase_iff, h.running_nodup.mem_erase_iff]
      by_cases here : q = p
      · simp [here]
      · simp [here, h.listed q]
    · rw [setup] at mem
      rw [peer, h.unconnected q (mem_of_mem_erase mem), ite_self]
    · rw [running, h.running_nodup.mem_erase_iff] at mem
      rw [peer, if_neg mem.1]
      exact h.connected q mem.2
    · have chains : (t.closesession p).ipaddr = (t.unhash p priv).ipaddr := by
        simp [SessionTables.closesession, allocated]
      rw [running, chains]
      refine ipaddr.congr (fun _ => .rfl) fun q mem => ?_
      have ne := (h.running_nodup.mem_erase_iff.1 mem).1
      rw [addrHash, peer, if_neg ne, hash]
      rfl
    · have chains : (t.closesession p).sessionid = (t.unhash p priv).sessionid := by
        simp [SessionTables.closesession, allocated]
      rw [running, chains]
      refine sessionid.congr (fun _ => .rfl) fun q mem => ?_
      have ne := (h.running_nodup.mem_erase_iff.1 mem).1
      rw [idHash, id, if_neg ne]
      rfl

theorem Consistent.step {e : Event} (h : t.Consistent) (distinct : t.Distinct e)
    (stepped : t.step e = some t') : t'.Consistent := by
  cases e with
  | newsession p sessionid =>
    obtain ⟨fresh, ⟨⟩⟩ := ite_none_left_eq_some.1 stepped
    exact h.newsession (by simpa using fresh) distinct
  | keepalive sockaddr sessionid =>
    cases stepped
    unfold parsingKeepalive
    split
    · exact h
    · split
      next unknown =>
        unfold recvunknownkeepalive
        split
        · exact h
        next p found =>
          refine h.promote (mem_of_find?_eq_some found) (by simpa using find?_some found)
            fun q peer => ?_
          rw [h.getsessionIpaddr_eq.2 peer] at unknown
          simp at unknown
      · exact h
  | deletesession sessionid =>
    cases stepped
    unfold deletesession
    split
    · exact h.closesession _
    · split
      · exact h.closesession _
      · exact h

/-- A session is in exactly one of the two lists, once, and it is found by its id, and by the address of its peer,
exactly when it is running. -/
theorem run_consistent {hashIpaddr : PeerAddr → ℕ} {events : List Event}
    (distinct : Along step Distinct (initial hashIpaddr) events)
    (run : runFrom step (initial hashIpaddr) events = some t) :
    (∀ p session, t.session p = some session → t.setup.count p + t.running.count p = 1 ∧
      (t.getsessionSessionid session.sessionid = some p ↔ p ∈ t.running) ∧
      ((∃ sockaddr, session.peeraddr = some sockaddr ∧ t.getsessionIpaddr sockaddr = some p) ↔ p ∈ t.running)) ∧
    (∀ p, p ∈ t.setup ∨ p ∈ t.running → (t.session p).isSome) ∧
    ∀ p ∈ t.running, ∀ q ∈ t.running, t.peer p = t.peer q → p = q := by
  have h : t.Consistent := distinct.invariant (fun _ _ _ h one stepped => Consistent.step h one stepped)
    (consistent_initial hashIpaddr) run
  refine ⟨fun p session allocated => ⟨?_, ?_, ?_⟩, fun p => (h.listed p).2, fun p mem q _ => ?_⟩
  · have there := (h.listed p).1 (by simp [allocated])
    by_cases setup : p ∈ t.setup
    · rw [count_eq_one_of_mem h.setup_nodup setup, count_eq_zero.2 (h.disjoint setup)]
    · rw [count_eq_zero.2 setup, count_eq_one_of_mem h.running_nodup (there.resolve_left setup)]
  · rw [h.getsessionSessionid_eq]
    simp [id, allocated]
  · rw [h.mem_running]
    simp only [h.getsessionIpaddr_eq]
    cases connected : session.peeraddr <;> simp [peer, allocated, connected]
  · exact h.peers p q (h.connected p mem)

def twoSessions : List Event :=
  [.newsession 7 1, .newsession 8 2, .keepalive (.inet 9 5247) (some 1), .keepalive (.inet 10 5247) (some 2)]

/-- Two sessions are created and get their first keep-alives. -/
theorem run_consistent_keepalive : ∃ t, runFrom step (initial fun _ => 0) twoSessions = some t ∧
    (t.getsessionSessionid 1 = some 7 ∧ t.getsessionIpaddr (.inet 9 5247) = some 7 ∧
      t.setup.count 7 + t.running.count 7 = 1) ∧
    t.getsessionSessionid 2 = some 8 ∧ t.getsessionIpaddr (.inet 10 5247) = some 8 ∧
      t.setup.count 8 + t.running.count 8 = 1 := by
  obtain ⟨t, run, session, session', running, running'⟩ : ∃ t, runFrom step (initial fun _ => 0) twoSessions = some t ∧
      t.session 7 = some { sessionid := 1, peeraddr := some (.inet 9 5247) } ∧
      t.session 8 = some { sessionid := 2, peeraddr := some (.inet 10 5247) } ∧ 7 ∈ t.running ∧ 8 ∈ t.running :=
    ⟨_, rfl, by decide +kernel⟩
  have distinct : Along step Distinct (initial fun _ => 0) twoSessions := by
    refine ⟨fun p => by simp [id, initial], fun t₁ h₁ => ⟨fun p => ?_, fun _ _ =>
      ⟨trivial, fun _ _ => ⟨trivial, fun _ _ => trivial⟩⟩⟩⟩
    cases h₁
    simp only [id, newsession, initial, Function.update_apply]
    split <;> simp
  obtain ⟨sessions, -, -⟩ := run_consistent distinct run
  have found {p : ℕ} {id : SessionId} {addr : PeerAddr}
      (session : t.session p = some { sessionid := id, peeraddr := some addr }) (running : p ∈ t.running) :
      t.getsessionSessionid id = some p ∧ t.getsessionIpaddr addr = some p ∧
        t.setup.count p + t.running.count p = 1 := by
    obtain ⟨count, byId, byAddr⟩ := sessions p _ session
    obtain ⟨sockaddr, same, found⟩ := byAddr.2 running
    cases same
    exact ⟨byId.2 running, found, count⟩
  exact ⟨t, run, found session running, found session' running'⟩

end SessionTables

end OpenWifi.Kmod
