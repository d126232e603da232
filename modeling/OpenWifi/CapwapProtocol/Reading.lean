import OpenWifi.CapwapProtocol.Reassembly
import OpenWifi.Lib.Reader

/-!
# Reading a message that was put together

The reads of `capwap_protocol.c` go from fragment to fragment; `stream` is what is left to read.  The allowance of
`readerpacketallowed` is 16 bits wide and has no limit when it is 0.
-/

namespace OpenWifi.CapwapProtocol

open List ReadBlockFromPos

def payload (fragment : List UInt8) : List UInt8 := fragment.drop (getHlen fragment * 4)

/-- The header of each fragment is within it, as `capwap_sanity_check` makes sure. -/
def Headed (fragments : List (List UInt8)) : Prop := ∀ f ∈ fragments, getHlen f * 4 ≤ f.length
  deriving Decidable

namespace ReadBlockFromPos

def stream (p : ReadBlockFromPos) : List UInt8 :=
  match p.item with
  | [] => []
  | item :: rest => item.drop p.pos ++ rest.flatMap payload

def Within (p : ReadBlockFromPos) : Prop :=
  match p.item with
  | [] => True
  | item :: rest => p.pos ≤ item.length ∧ Headed rest

theorem readLoop_spec {items : List (List UInt8)} {n pos : ℕ} (within : Within ⟨items, pos⟩) :
    ∃ p, readLoop n items pos = some ((stream ⟨items, pos⟩).take n, p) ∧
      p.stream = (stream ⟨items, pos⟩).drop n ∧ p.Within := by
  induction items generalizing n pos with
  | nil => exact ⟨⟨[], pos⟩, by simp [readLoop, stream], by simp [stream], trivial⟩
  | cons item rest ih =>
    cases n with
    | zero => exact ⟨⟨item :: rest, pos⟩, by simp [readLoop], by simp, within⟩
    | succ n =>
      obtain ⟨(fits : pos ≤ item.length), (headed : Headed rest)⟩ := within
      have length : (item.drop pos).length = item.length - pos := length_drop
      rw [readLoop, if_neg (by omega)]
      simp only [stream]
      split
      · -- the fragment is read to its end
        rename_i whole
        have short : item.length - pos ≤ n + 1 := by omega
        have all : (item.drop pos).take (n + 1) = item.drop pos := take_of_length_le (by omega)
        have none : (item.drop pos).drop (n + 1) = [] := drop_of_length_le (by omega)
        rw [Nat.min_eq_left short, take_of_length_le (by omega), take_append, drop_append, all,
          none, length, nil_append]
        cases rest with
        | nil => exact ⟨⟨[], 0⟩, by simp, by simp, trivial⟩
        | cons next rest =>
          have nextWithin : Within ⟨next :: rest, getHlen next * 4⟩ :=
            ⟨headed next mem_cons_self, fun f mem => headed f (mem_cons_of_mem _ mem)⟩
          obtain ⟨p, read, left, within⟩ := @ih (n + 1 - (item.length - pos)) _ nextWithin
          exact ⟨p, by simp only [read]; rfl, left, within⟩
      next part =>
        have long : n + 1 ≤ item.length - pos := by omega
        have enough : n + 1 - (item.drop pos).length = 0 := by omega
        rw [Nat.min_eq_right long, take_append, drop_append, enough, take_zero, drop_zero, append_nil, drop_drop]
        refine ⟨_, rfl, rfl, ?_, headed⟩
        show pos + (n + 1) ≤ item.length
        omega

end ReadBlockFromPos

/-! ## Reads with an allowance -/

namespace PacketRxmng

variable {rx : PacketRxmng}

def stream (rx : PacketRxmng) : List UInt8 := rx.readpos.stream

/-- The position is within its fragment, and what is left and the allowance have less than 65536 bytes. -/
structure Readable (rx : PacketRxmng) : Prop where
  within : rx.readpos.Within
  short : rx.stream.length < 65536
  allowed : rx.readerpacketallowed < 65536

/-- The message after `n` bytes are read. -/
structure After (rx : PacketRxmng) (n : ℕ) (rx' : PacketRxmng) : Prop where
  readable : rx'.Readable
  le : n ≤ rx.stream.length
  stream : rx'.stream = rx.stream.drop n
  allowed : rx'.readerpacketallowed = (rx.readerpacketallowed + 65536 - n) % 65536

/-- How many bytes a read of `length` bytes may take. -/
def limit (rx : PacketRxmng) (length : ℕ) : ℕ :=
  if 0 < rx.readerpacketallowed then min length rx.readerpacketallowed else length

theorem After.refl (h : rx.Readable) : After rx 0 rx := by
  have := h.allowed
  exact ⟨h, Nat.zero_le _, rfl, by omega⟩

theorem After.trans {rx₁ rx₂ : PacketRxmng} {m n : ℕ} (h : rx.Readable) (first : After rx m rx₁)
    (second : After rx₁ n rx₂) : After rx (m + n) rx₂ := by
  have total : rx.stream.length < 65536 := h.short
  have left := second.le
  rw [first.stream, length_drop] at left
  have := first.le
  refine ⟨second.readable, by omega, ?_, ?_⟩
  · rw [second.stream, first.stream, drop_drop]
  · rw [second.allowed, first.allowed]
    omega

theorem readBlock_spec (h : rx.Readable) (length : ℕ) :
    ∃ rx', rx.readBlock length = some (rx.stream.take (rx.limit length), rx') ∧
      After rx (rx.stream.take (rx.limit length)).length rx' := by
  obtain ⟨p, read, left, within⟩ := @readLoop_spec _ (rx.limit length) _ h.within
  have block : readBlockFromPos length rx.readpos rx.readerpacketallowed =
      some (rx.stream.take (rx.limit length), p) := read
  refine ⟨_, by rw [readBlock, block]; rfl, ?_⟩
  have short := h.short
  have streams : p.stream = rx.stream.drop (rx.stream.take (rx.limit length)).length := by
    rw [length_take, left]
    by_cases le : rx.limit length ≤ rx.stream.length
    · rw [Nat.min_eq_left le]
      rfl
    · rw [Nat.min_eq_right (by omega), drop_length]
      exact drop_of_length_le (by show rx.stream.length ≤ _; omega)
  refine ⟨⟨within, ?_, Nat.mod_lt _ (by decide)⟩, by rw [length_take]; omega, streams, rfl⟩
  show p.stream.length < 65536
  rw [streams, length_drop]
  omega

theorem readNumber_spec (h : rx.Readable) (size : ℕ) (allowed : size ≤ rx.readerpacketallowed) (pos : 0 < size) :
    ∃ rx', After rx (rx.stream.take size).length rx' ∧ rx.readNumber size =
        some (if (rx.stream.take size).length ≠ size then none else some (networkNumber (rx.stream.take size)),
          rx') := by
  obtain ⟨rx', read, after⟩ := readBlock_spec h size
  have limit : rx.limit size = size := by
    rw [PacketRxmng.limit, if_pos (by omega), Nat.min_eq_left allowed]
  rw [limit] at read after
  exact ⟨rx', after, by rw [readNumber, read]; rfl⟩

/-- `capwap_fragment_read_ready`. -/
def readReady (rx : PacketRxmng) : ℕ := if rx.readpos.item = [] then 0 else rx.readerpacketallowed

def runReader {ε : Type*} (reader : Reader ε) (rx : PacketRxmng) : Option (Option ε × PacketRxmng) :=
  reader.run readReady readBlock rx

theorem stream_eq_nil (empty : rx.readpos.item = []) : rx.stream = [] := by
  simp [stream, ReadBlockFromPos.stream, empty]

theorem runReader_spec {ε : Type*} (reader : Reader ε) (h : rx.Readable) :
    ∃ result rx' n, rx.runReader reader = some (result, rx') ∧ After rx n rx' ∧
      (n = rx.readerpacketallowed → reader.eval (rx.stream.take n) = (result, [])) := by
  induction reader generalizing rx with
  | done result =>
    refine ⟨result, rx, 0, rfl, After.refl h, fun _ => ?_⟩
    simp [Reader.eval]
  | ready next ih =>
    obtain ⟨result, rx', n, run, after, eval⟩ := ih rx.readReady h
    refine ⟨result, rx', n, run, after, fun used => ?_⟩
    have length : (rx.stream.take n).length = rx.readReady := by
      rw [length_take, Nat.min_eq_left after.le, readReady]
      split
      next empty =>
        have le := after.le
        rw [stream_eq_nil empty] at le
        simpa using le
      · exact used
    rw [Reader.eval, length]
    exact eval used
  | block length next ih =>
    obtain ⟨rx₁, read, first⟩ := readBlock_spec h length
    obtain ⟨result, rx₂, n, run, second, eval⟩ := ih (rx.stream.take (rx.limit length)) first.readable
    generalize taken : rx.stream.take (rx.limit length) = bytes at read first run eval
    refine ⟨result, rx₂, bytes.length + n, ?_, first.trans h second, fun used => ?_⟩
    · show (rx.readBlock length).bind _ = _
      rw [read]
      exact run
    · have le := (first.trans h second).le
      have short := h.short
      have allowed := h.allowed
      have left : n = rx₁.readerpacketallowed := by
        rw [first.allowed]
        omega
      have size : bytes.length = min length rx.readerpacketallowed := by
        have length_eq : bytes.length = min (rx.limit length) rx.stream.length := by rw [← taken, length_take]
        unfold limit at length_eq
        split at length_eq <;> omega
      have bytes_eq : (rx.stream.take (bytes.length + n)).take length = bytes := by
        rw [take_take, used, ← size, ← taken, length_take, take_eq_take_iff]
        omega
      have rest_eq : (rx.stream.take (bytes.length + n)).drop length = rx₁.stream.take n := by
        rw [first.stream, drop_take]
        by_cases le : length ≤ bytes.length
        · rw [show length = bytes.length by omega, Nat.add_sub_cancel_left]
        · rw [show n = 0 by omega, show bytes.length + 0 - length = 0 by omega, take_zero, take_zero]
      rw [Reader.eval, bytes_eq, rest_eq]
      exact eval left

theorem runReader_of_evalExact {ε : Type*} {reader : Reader ε} {result : Option ε} {rest : List UInt8}
    (h : rx.Readable) (whole : rx.readerpacketallowed ≤ rx.stream.length)
    (eval : reader.evalExact (rx.stream.take rx.readerpacketallowed) = some (result, rest)) :
    ∃ rx', rx.runReader reader = some (result, rx') ∧ rest.length ≤ rx.readerpacketallowed ∧
      After rx (rx.readerpacketallowed - rest.length) rx' := by
  induction reader generalizing rx with
  | done result =>
    cases eval
    have length : (rx.stream.take rx.readerpacketallowed).length = rx.readerpacketallowed := by
      rw [length_take, Nat.min_eq_left whole]
    refine ⟨rx, rfl, length.le, ?_⟩
    rw [length, Nat.sub_self]
    exact After.refl h
  | ready next ih =>
    have length : (rx.stream.take rx.readerpacketallowed).length = rx.readReady := by
      rw [length_take, Nat.min_eq_left whole, readReady]
      split
      next empty =>
        rw [stream_eq_nil empty] at whole
        simpa using whole
      · rfl
    rw [Reader.evalExact, length] at eval
    exact ih rx.readReady h whole eval
  | block length next ih =>
    rw [Reader.evalExact] at eval
    split at eval
    next within =>
      rw [length_take, Nat.min_eq_left whole] at within
      have limit : rx.stream.take (rx.limit length) = rx.stream.take length := by
        unfold PacketRxmng.limit
        split
        · rw [Nat.min_eq_left within]
        · rfl
      obtain ⟨rx₁, read, first⟩ := readBlock_spec h length
      have taken : (rx.stream.take length).length = length := by
        rw [length_take]
        omega
      rw [limit] at read first
      rw [taken] at first
      have := h.allowed
      have allowed : rx₁.readerpacketallowed = rx.readerpacketallowed - length := by
        rw [first.allowed]
        omega
      have block : (rx.stream.take rx.readerpacketallowed).take length = rx.stream.take length := by
        rw [take_take, Nat.min_eq_left within]
      have left : (rx.stream.take rx.readerpacketallowed).drop length = rx₁.stream.take rx₁.readerpacketallowed := by
        rw [drop_take, first.stream, allowed]
      rw [block, left] at eval
      obtain ⟨rx₂, run, le, second⟩ := ih _ first.readable
        (by rw [first.stream, length_drop, allowed]; omega) eval
      refine ⟨rx₂, ?_, by omega, ?_⟩
      · show (rx.readBlock length).bind _ = _
        rw [read]
        exact run
      · have total := first.trans h second
        rwa [show length + (rx₁.readerpacketallowed - rest.length) = rx.readerpacketallowed - rest.length by omega]
          at total
    · exact absurd eval (by simp)

end PacketRxmng

end OpenWifi.CapwapProtocol
