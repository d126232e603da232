import OpenWifi.CapwapProtocol.Header

/-!
# Keep-alives in the kernel

The branch of `sc_capwap_parsingpacket` for keep-alives, with the positions that it reads.  The declared length is
counted down in 16 bits.
-/

namespace OpenWifi.Kmod

open List CapwapProtocol

/-- A packet of `len` bytes at the front of the memory; `known` tells whether the session id is accepted. -/
structure KeepAlive where
  memory : List UInt8
  len : ℕ
  known : List UInt8 → Bool

inductive KeepAliveResult
  | refused
  | ended
  | accepted (message : ℕ)
  deriving DecidableEq

namespace KeepAlive

variable {k : KeepAlive}

def headersize (k : KeepAlive) : ℕ := getHlen k.memory * 4

def declared (k : KeepAlive) : ℕ := readBe16 k.memory k.headersize

def msglength (k : KeepAlive) (message : ℕ) : ℕ := readBe16 k.memory (message + 2)

def isSessionid (k : KeepAlive) (message : ℕ) : Bool := readBe16 k.memory message = 35 ∧ k.msglength message = 16

def sessionid (k : KeepAlive) (message : ℕ) : List UInt8 := (k.memory.drop (message + 4)).take 16

def elementLoop (k : KeepAlive) : ℕ → ℕ → ℕ → Option (List (ℕ × ℕ) × KeepAliveResult)
  | 0, _, _ => none
  | fuel + 1, message, left =>
    if left = 0 then some ([], .ended)
    else if left < k.msglength message + 4 then some ([(message + 2, 2)], .refused)
    else if k.isSessionid message then
      some ([(message + 2, 2), (message, 2), (message + 4, 16)],
        if k.known (k.sessionid message) then .accepted message else .refused)
    else (k.elementLoop fuel (message + (k.msglength message + 4)) (left - (k.msglength message + 4))).map fun r =>
      ((message + 2, 2) :: (message, 2) :: r.1, r.2)

/-- `sc_capwap_parsingpacket` for a packet with the K flag. -/
def parsingpacket (k : KeepAlive) (fuel : ℕ) : Option (List (ℕ × ℕ) × KeepAliveResult) :=
  if isFlag .f k.memory then some ([(0, 8)], .refused)
  else if k.len < k.headersize + 2 then some ([(0, 8)], .refused)
  else if k.len - k.headersize < k.declared then some ([(0, 8), (k.headersize, 2)], .refused)
  else (k.elementLoop fuel (k.headersize + 2) ((k.declared + 65536 - 2) % 65536)).map fun r =>
    ((0, 8) :: (k.headersize, 2) :: r.1, r.2)

def InPacket (k : KeepAlive) (r : List (ℕ × ℕ) × KeepAliveResult) : Prop :=
  (∀ x ∈ r.1, x.1 + x.2 ≤ k.len) ∧
    ∀ message, r.2 = .accepted message → k.isSessionid message ∧ message + 20 ≤ k.headersize + k.declared

/-- From the element at `message`, with `left` declared bytes from it on, the loop comes to the one at `m` with `rest`
bytes. -/
inductive Reached (k : KeepAlive) : ℕ → ℕ → ℕ → ℕ → Prop
  | here {message left : ℕ} : Reached k message left message left
  | next {message left m rest : ℕ} (fits : k.msglength message + 4 ≤ left) (other : k.isSessionid message = false)
    (later : Reached k (message + (k.msglength message + 4)) (left - (k.msglength message + 4)) m rest) :
    Reached k message left m rest

theorem Reached.add_eq {message left m rest : ℕ} (reached : k.Reached message left m rest) :
    m + rest = message + left ∧ message ≤ m := by
  induction reached with
  | here => exact ⟨rfl, le_rfl⟩
  | next fits _ _ ih => omega

def Inside (k : KeepAlive) (m rest : ℕ) : Prop :=
  m + 4 ≤ k.len ∧ (k.msglength m + 4 ≤ rest → k.isSessionid m →
    m + 20 ≤ k.len ∧ (k.known (k.sessionid m) → m + 20 ≤ k.headersize + k.declared))

theorem elementLoop_iff {fuel message left : ℕ} (enough : left < fuel) :
    ∃ r, k.elementLoop fuel message left = some r ∧
      (k.InPacket r ↔ ∀ m rest, k.Reached message left m rest → 0 < rest → k.Inside m rest) := by
  induction fuel generalizing message left with
  | zero => exact absurd enough (Nat.not_lt_zero _)
  | succ fuel ih =>
    rw [elementLoop]
    by_cases none : left = 0
    · subst none
      refine ⟨_, if_pos rfl, iff_of_true (by simp [InPacket]) fun m rest reached pos => ?_⟩
      cases reached with
      | here => exact absurd pos (Nat.lt_irrefl 0)
      | next fits => omega
    have pos : 0 < left := Nat.pos_of_ne_zero none
    rw [if_neg none]
    by_cases long : left < k.msglength message + 4
    · rw [if_pos long]
      refine ⟨_, rfl, fun h m rest reached _ => ?_, fun h => ⟨?_, nofun⟩⟩
      · cases reached with
        | here => exact ⟨h.1 _ (mem_singleton_self _), fun fits => absurd fits (not_le.2 long)⟩
        | next fits => exact absurd fits (not_le.2 long)
      · simpa using (h _ _ .here pos).1
    rw [if_neg long]
    cases session : k.isSessionid message with
    | true =>
      rw [if_pos rfl]
      refine ⟨_, rfl, fun h m rest reached _ => ?_, fun h => ?_⟩
      · cases reached with
        | here => exact ⟨h.1 _ mem_cons_self, fun _ _ => ⟨h.1 (_, 16) (by simp), fun known => (h.2 _ (if_pos known)).2⟩⟩
        | next _ other => exact absurd (session.symm.trans other) nofun
      · obtain ⟨whole, declared⟩ := (h _ _ .here pos).2 (not_lt.1 long) session
        refine ⟨by simp; omega, fun message' accepted => ?_⟩
        split at accepted
        next known =>
          obtain rfl := KeepAliveResult.accepted.inj accepted
          exact ⟨session, declared known⟩
        · exact absurd accepted nofun
    | false =>
      rw [if_neg (by simp)]
      obtain ⟨r, loop, iff⟩ := @ih (message + (k.msglength message + 4)) (left - (k.msglength message + 4)) (by omega)
      rw [loop]
      refine ⟨_, rfl, fun h m rest reached more => ?_, fun h => ?_⟩
      · cases reached with
        | here => exact ⟨h.1 _ mem_cons_self, fun _ session' => absurd (session.symm.trans session') nofun⟩
        | next _ _ later => exact iff.1 ⟨fun x mem => h.1 x (by simp [mem]), h.2⟩ m rest later more
      · obtain ⟨reads, accepted⟩ := iff.2 fun m rest later => h m rest (.next (not_lt.1 long) session later)
        have header := (h _ _ .here pos).1
        refine ⟨fun x mem => ?_, accepted⟩
        simp only [mem_cons] at mem
        rcases mem with rfl | rfl | mem
        · exact header
        · dsimp only; omega
        · exact reads x mem

/-- With a declared length of at least 2 no rest of one to three bytes has its header behind the packet.  A shorter
one is taken for 65534 or 65535 bytes: then every header that is reached and every session id must be in the packet,
and none of these ids be known. -/
def Fits (k : KeepAlive) : Prop :=
  if 2 ≤ k.declared then
    ∀ m rest, k.Reached (k.headersize + 2) (k.declared - 2) m rest → 0 < rest → rest < 4 → m + 4 ≤ k.len
  else
    ∀ m rest, k.Reached (k.headersize + 2) (k.declared + 65534) m rest → 0 < rest → m + 4 ≤ k.len ∧
      (k.msglength m + 4 ≤ rest → k.isSessionid m → m + 20 ≤ k.len ∧ ¬ k.known (k.sessionid m))

theorem declared_lt (k : KeepAlive) : k.declared < 65536 := by
  have high := byteAt_lt k.memory k.headersize
  have low := byteAt_lt k.memory (k.headersize + 1)
  unfold declared readBe16
  omega

theorem fits_iff (whole : k.headersize + k.declared ≤ k.len) : k.Fits ↔
    ∀ m rest, k.Reached (k.headersize + 2) ((k.declared + 65536 - 2) % 65536) m rest → 0 < rest → k.Inside m rest := by
  have bound := k.declared_lt
  unfold Fits
  split_ifs with enough
  · rw [show (k.declared + 65536 - 2) % 65536 = k.declared - 2 by omega]
    refine forall₃_congr fun m rest reached => forall_congr' fun pos => ?_
    have sum := reached.add_eq.1
    refine ⟨fun short => ⟨?_, fun fits session => ?_⟩, fun inside _ => inside.1⟩
    · by_cases few : rest < 4
      · exact short few
      · omega
    · have length : k.msglength m = 16 := (of_decide_eq_true session).2
      omega
  · rw [show (k.declared + 65536 - 2) % 65536 = k.declared + 65534 by omega]
    refine forall₃_congr fun m rest reached => forall_congr' fun _ => and_congr_right fun _ => ?_
    have behind := reached.add_eq.2
    refine forall₂_congr fun _ _ => and_congr_right fun _ => forall_congr' fun _ => (iff_false_intro ?_).symm
    omega

/-- What is read is in the packet, and only a session id within the declared length is accepted, exactly when the packet
is refused before its elements or these fit. -/
theorem parsingpacket_inPacket_iff (k : KeepAlive) (header : 8 ≤ k.len) :
    ∃ r, k.parsingpacket 65536 = some r ∧ (k.InPacket r ↔
      isFlag .f k.memory ∨ k.len < k.headersize + 2 ∨ k.len - k.headersize < k.declared ∨ k.Fits) := by
  unfold parsingpacket
  by_cases fragment : isFlag .f k.memory
  · rw [if_pos fragment]
    exact ⟨_, rfl, fun _ => .inl fragment, fun _ => ⟨by simpa using header, nofun⟩⟩
  rw [if_neg fragment]
  by_cases short : k.len < k.headersize + 2
  · rw [if_pos short]
    exact ⟨_, rfl, fun _ => .inr (.inl short), fun _ => ⟨by simpa using header, nofun⟩⟩
  rw [if_neg short]
  by_cases beyond : k.len - k.headersize < k.declared
  · rw [if_pos beyond]
    exact ⟨_, rfl, fun _ => .inr (.inr (.inl beyond)), fun _ => ⟨by simp; omega, nofun⟩⟩
  rw [if_neg beyond, fits_iff (by omega)]
  have enough : (k.declared + 65536 - 2) % 65536 < 65536 := Nat.mod_lt _ (by decide)
  obtain ⟨r, loop, iff⟩ := @elementLoop_iff k 65536 (k.headersize + 2) _ enough
  rw [loop]
  refine ⟨_, rfl, fun h => .inr (.inr (.inr (iff.1 ⟨fun x mem => h.1 x (by simp [mem]), h.2⟩))), fun h => ?_⟩
  obtain ⟨reads, accepted⟩ := iff.2 (((h.resolve_left fragment).resolve_left short).resolve_left beyond)
  refine ⟨fun x mem => ?_, accepted⟩
  simp only [mem_cons] at mem
  rcases mem with rfl | rfl | mem
  · exact header
  · dsimp only; omega
  · exact reads x mem

def sessionKeepAlive (declared : UInt8) : KeepAlive :=
  ⟨[0, 16, 0, 8, 0, 0, 0, 0, 0, declared, 0, 35, 0, 16] ++ List.replicate 16 1, 30, fun _ => true⟩

theorem parsingpacket_inPacket_iff_session :
    ∃ r, (sessionKeepAlive 22).parsingpacket 65536 = some r ∧ (sessionKeepAlive 22).InPacket r := by
  obtain ⟨r, run, iff⟩ := parsingpacket_inPacket_iff (sessionKeepAlive 22) (by decide)
  refine ⟨r, run, iff.2 (.inr (.inr (.inr ?_)))⟩
  rw [Fits, if_pos (by decide)]
  intro m rest reached _ _
  cases reached with
  | here => decide
  | next _ other => exact absurd other (by decide)

/-- A packet of length 0 is accepted with a session id, and one with a single byte behind the length is read beyond
its end. -/
theorem parsingpacket_outside :
    (sessionKeepAlive 0).parsingpacket 65536 = some ([(0, 8), (8, 2), (12, 2), (10, 2), (14, 16)], .accepted 10) ∧
    (KeepAlive.mk [0, 16, 0, 8, 0, 0, 0, 0, 0, 3, 0] 11 fun _ => true).parsingpacket 65536 =
      some ([(0, 8), (8, 2), (12, 2)], .refused) := by
  decide +kernel

end KeepAlive

end OpenWifi.Kmod
