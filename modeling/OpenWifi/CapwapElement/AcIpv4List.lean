import OpenWifi.CapwapElement.Fields

/-!
# The AC IPv4 List

`capwap_acipv4list_element_parsing` counts a length of 16 bits down by 4 until it is 0.  It refuses a length
that is not a multiple of 4 only when the length is in the range that it allows.
-/

namespace OpenWifi.CapwapElement

open List CapwapProtocol PacketRxmng

/-- `capwap_acipv4list_element_parsing`, with as many rounds of the loop as there is fuel: without a result
when the loop has not ended, and `some none` when the element is refused. -/
def acipv4listParsing (fuel : ℕ) : Reader (Option (List (List UInt8))) :=
  .ready fun length =>
    if 4 ≤ length ∧ length ≤ 1024 * 4 ∧ length % 4 ≠ 0 then .done (some none)
    else readWhile 4 (.block 4) fuel length fun addresses => .done (some (some addresses))

/-- The first `n` groups of four bytes. -/
def groupsOfFour : ℕ → List UInt8 → List (List UInt8)
  | 0, _ => []
  | n + 1, bytes => bytes.take 4 :: groupsOfFour n (bytes.drop 4)

variable {ε : Type*} {rx : PacketRxmng}

theorem runReader_readBlock {n : ℕ} {bytes : List UInt8} {rx' : PacketRxmng} (read : rx.readBlock n = some (bytes, rx'))
    (next : List UInt8 → Reader ε) : rx.runReader (.block n next) = rx'.runReader (next bytes) := by
  rw [runReader, Reader.run, read]
  rfl

theorem runReader_block (h : rx.Readable) {n : ℕ} (pos : 0 < n) (allowed : n ≤ rx.readerpacketallowed)
    (next : List UInt8 → Reader ε) :
    ∃ rx' : PacketRxmng, rx.runReader (.block n next) = rx'.runReader (next (rx.stream.take n)) ∧ rx'.Readable ∧
      rx'.stream = rx.stream.drop n ∧ rx.readerpacketallowed ≤ rx'.readerpacketallowed + n := by
  obtain ⟨rx', read, after⟩ := readBlock_spec h n
  have limit : rx.limit n = n := by rw [PacketRxmng.limit, if_pos (by omega), Nat.min_eq_left allowed]
  rw [limit] at read after
  have taken : (rx.stream.take n).length = min n rx.stream.length := length_take
  refine ⟨rx', runReader_readBlock read next, after.readable, ?_, ?_⟩
  · rw [after.stream, taken]
    by_cases le : n ≤ rx.stream.length
    · rw [Nat.min_eq_left le]
    · rw [drop_of_length_le (by omega), drop_of_length_le (by omega)]
  · have := after.allowed
    have := h.allowed
    omega

theorem runReader_readWhile (h : rx.Readable) {n k : ℕ} (allowed : 4 * n ≤ rx.readerpacketallowed) (enough : n ≤ k)
    (next : List (List UInt8) → Reader ε) : ∃ rx' : PacketRxmng, rx.runReader (readWhile 4 (.block 4) k (4 * n) next) =
      rx'.runReader (next (groupsOfFour n rx.stream)) := by
  induction n generalizing rx k next with
  | zero => exact ⟨rx, by cases k <;> rfl⟩
  | succ n ih =>
    obtain ⟨k, rfl⟩ := Nat.exists_eq_add_one_of_ne_zero (show k ≠ 0 by omega)
    have := h.allowed
    have left : (4 * n + 3 + 1 + 65536 - 4) % 65536 = 4 * n := by omega
    obtain ⟨rx₁, first, readable, stream, more⟩ := runReader_block h (by decide) (show 4 ≤ _ by omega)
      fun a => readWhile 4 (.block 4) k (4 * n) fun as => next (a :: as)
    obtain ⟨rx₂, rest⟩ := ih (k := k) readable (by omega) (by omega) fun as => next (rx.stream.take 4 :: as)
    rw [stream] at rest
    refine ⟨rx₂, Eq.trans ?_ rest⟩
    rw [← first, show 4 * (n + 1) = 4 * n + 3 + 1 by omega, readWhile, left]

theorem runReader_readWhile_forever (h : rx.Readable) {length : ℕ} (odd : length % 4 ≠ 0) (k : ℕ)
    (next : List (List UInt8) → Reader ε) :
    ∃ rx', rx.runReader (readWhile 4 (.block 4) k length next) = some (none, rx') := by
  induction k generalizing rx length next with
  | zero =>
    obtain ⟨length, rfl⟩ := Nat.exists_eq_add_one_of_ne_zero (show length ≠ 0 by omega)
    exact ⟨rx, rfl⟩
  | succ k ih =>
    obtain ⟨length, rfl⟩ := Nat.exists_eq_add_one_of_ne_zero (show length ≠ 0 by omega)
    obtain ⟨rx₁, read, after⟩ := readBlock_spec h 4
    obtain ⟨rx₂, rest⟩ := ih after.readable (show (length + 1 + 65536 - 4) % 65536 % 4 ≠ 0 by omega)
      fun as => next (rx.stream.take (rx.limit 4) :: as)
    exact ⟨rx₂, by rw [readWhile, runReader_readBlock read, rest]⟩

theorem readReady_le (rx : PacketRxmng) : rx.readReady ≤ rx.readerpacketallowed := by
  unfold readReady
  split <;> omega

/-- The parser ends, with the addresses in the message, and with a list exactly when the length is a positive multiple
of 4, exactly when the length is between 4 and the maximum. -/
theorem acipv4listParsing_iff (h : rx.Readable) :
    (∃ fuel r rx', rx.runReader (acipv4listParsing fuel) = some (some r, rx') ∧
      (r.isSome ↔ 0 < rx.readReady ∧ rx.readReady % 4 = 0 ∧ rx.readReady ≤ 4 * 1024) ∧
      ∀ addresses, r = some addresses → addresses = groupsOfFour (rx.readReady / 4) rx.stream) ↔
    4 ≤ rx.readReady ∧ rx.readReady ≤ 4 * 1024 := by
  have start (fuel : ℕ) : rx.runReader (acipv4listParsing fuel) = rx.runReader
      (if 4 ≤ rx.readReady ∧ rx.readReady ≤ 1024 * 4 ∧ rx.readReady % 4 ≠ 0 then .done (some none)
        else readWhile 4 (.block 4) fuel rx.readReady fun addresses => .done (some (some addresses))) := rfl
  simp only [start]
  by_cases refused : 4 ≤ rx.readReady ∧ rx.readReady ≤ 1024 * 4 ∧ rx.readReady % 4 ≠ 0
  · simp only [if_pos refused]
    exact ⟨fun _ => by omega, fun _ => ⟨0, none, rx, rfl, by simp; omega, nofun⟩⟩
  · simp only [if_neg refused]
    by_cases multiple : rx.readReady % 4 = 0
    · have times : rx.readReady = 4 * (rx.readReady / 4) := by omega
      have run {fuel : ℕ} (enough : rx.readReady / 4 ≤ fuel) := runReader_readWhile h
        (times ▸ readReady_le rx) enough fun addresses => Reader.done (some (some addresses))
      rw [← times] at run
      constructor
      · rintro ⟨fuel, r, rx', result, listed, -⟩
        -- a loop that has ended gives a list
        have yields : (readWhile 4 (.block 4) fuel rx.readReady fun addresses =>
            Reader.done (some (some addresses))).Yields (·.isSome) := by
          refine yields_readWhile ?_ _ _ ?_
          · exact fun _ h => h
          · exact fun _ _ eq => by rw [← Option.some.inj eq]; rfl
        have := listed.1 (yields.run result)
        omega
      · intro range
        obtain ⟨rx', result⟩ := run (Nat.le_refl _)
        exact ⟨_, _, rx', result, by simp; omega, fun _ eq => (Option.some.inj eq).symm⟩
    · refine ⟨?_, fun _ => by omega⟩
      rintro ⟨fuel, r, rx', result, -⟩
      obtain ⟨rx₂, none⟩ := runReader_readWhile_forever h multiple fuel
        fun addresses => Reader.done (some (some addresses))
      exact absurd (none.symm.trans result) nofun

def elementValue (bytes : List UInt8) : PacketRxmng :=
  { rxmngCreateMessage with readpos := ⟨[bytes], 0⟩, readerpacketallowed := bytes.length }

theorem readable_elementValue {bytes : List UInt8} (short : bytes.length < 65536) : (elementValue bytes).Readable := by
  refine ⟨⟨Nat.zero_le _, fun _ mem => absurd mem not_mem_nil⟩, ?_, short⟩
  simpa [PacketRxmng.stream, ReadBlockFromPos.stream, elementValue] using short

theorem acipv4listParsing_iff_two :
    ∃ fuel r rx', (elementValue [10, 0, 0, 1, 10, 0, 0, 2]).runReader (acipv4listParsing fuel) = some (some r, rx') ∧
      (r.isSome ↔ 0 < 8 ∧ 8 % 4 = 0 ∧ 8 ≤ 4 * 1024) := by
  have readable : (elementValue [10, 0, 0, 1, 10, 0, 0, 2]).Readable := readable_elementValue (by decide)
  obtain ⟨fuel, r, rx', run, listed, -⟩ := (acipv4listParsing_iff readable).2 (by decide)
  exact ⟨fuel, r, rx', run, listed⟩

/-- With two bytes the loop never ends, and without any byte there is an empty list. -/
theorem acipv4listParsing_forever :
    (∀ fuel, ∃ rx', (elementValue [10, 0]).runReader (acipv4listParsing fuel) = some (none, rx')) ∧
      ((elementValue []).runReader (acipv4listParsing 0)).map (·.1) = some (some (some [])) := by
  refine ⟨fun fuel => ?_, by decide +kernel⟩
  exact runReader_readWhile_forever (readable_elementValue (by decide)) (show 2 % 4 ≠ 0 by decide) fuel _

end OpenWifi.CapwapElement
