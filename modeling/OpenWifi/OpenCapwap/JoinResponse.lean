import Mathlib.Data.Nat.Basic

/-!
# The elements of the Join Response

`CWAssembleJoinResponse` allocates six elements besides the optional ones.  Five are always there, and one is written
for each radio of the WTP.
-/

namespace OpenWifi.OpenCapwap

open List

inductive JoinElement
  | acDescriptor | acName | ecnSupport | localIPv4Addresses | controlIPv4Addresses
  | wtpRadioInformation
  | acIPv4List | acIPv6List | resultCode
  /-- A type of an optional value that the `switch` does not know. -/
  | unrecognized
  deriving DecidableEq

/-- The indices written from `k` on, and whether all elements were assembled.  After a failure the entry of the call is
freed, which writes to it as well. -/
def assembleElements (assembled : ℕ → Bool) : ℕ → List JoinElement → List ℕ × Bool
  | _, [] => ([], true)
  | k, element :: elements =>
    if element = .unrecognized then ([], false)
    else if assembled k then (assembleElements assembled (k + 1) elements).map (k :: ·) id
    else ([k], false)

/-- The accesses to `msgElems`: its size, the indices written, and the number of elements passed to
`CWAssembleMessage`. -/
structure Assembly where
  allocated : ℕ
  written : List ℕ
  passed : Option ℕ
  deriving DecidableEq

def mandatoryMsgElemCount : ℕ := 6

def joinElements (radioCount : ℕ) (msgElemList : List JoinElement) : List JoinElement :=
  [.acDescriptor, .acName, .ecnSupport, .localIPv4Addresses, .controlIPv4Addresses] ++
    (replicate radioCount .wtpRadioInformation ++ msgElemList)

/-- `CWAssembleJoinResponse`; an empty list is `NULL`, and `malloc` is whether there is memory for the array. -/
def assembleJoinResponse (malloc : Bool) (assembled : ℕ → Bool) (radioCount : ℕ) (msgElemList : List JoinElement) :
    Assembly :=
  if msgElemList = [] ∨ malloc = false then ⟨0, [], none⟩
  else
    let allocated := msgElemList.length + mandatoryMsgElemCount
    let elements := assembleElements assembled 0 (joinElements radioCount msgElemList)
    -- `CW_CREATE_PROTOCOL_MSG_ARRAY_ERR` writes an empty message to each element first
    ⟨allocated, range allocated ++ elements.1, if elements.2 then some allocated else none⟩

def Assembly.Fits (a : Assembly) : Prop :=
  (∀ k ∈ a.written, k < a.allocated) ∧ ∀ n, a.passed = some n → ∀ k < n, k ∈ a.written

variable {assembled : ℕ → Bool} {allocated k : ℕ} {elements : List JoinElement}

/-- The assembly ends before it writes behind the array. -/
def EndsEarly (assembled : ℕ → Bool) (allocated k : ℕ) (elements : List JoinElement) : Prop :=
  (∃ j < elements.length, k + j < allocated ∧ assembled (k + j) = false) ∨
    ∃ j, elements[j]? = some .unrecognized ∧ k + j ≤ allocated

theorem endsEarly_cons {element : JoinElement} (known : element ≠ .unrecognized) :
    EndsEarly assembled allocated k (element :: elements) ↔
      k < allocated ∧ (assembled k = false ∨ EndsEarly assembled allocated (k + 1) elements) := by
  constructor
  · rintro (⟨_ | j, inside, below, fails⟩ | ⟨_ | j, stop, below⟩)
    · exact ⟨below, .inl fails⟩
    · rw [← Nat.add_assoc, Nat.add_right_comm] at below fails
      exact ⟨by omega, .inr (.inl ⟨j, Nat.lt_of_succ_lt_succ inside, below, fails⟩)⟩
    · exact absurd (Option.some.inj stop) known
    · exact ⟨by omega, .inr (.inr ⟨j, stop, by omega⟩)⟩
  · rintro ⟨below, fails | ⟨j, inside, below, fails⟩ | ⟨j, stop, below⟩⟩
    · exact .inl ⟨0, Nat.succ_pos _, below, fails⟩
    · rw [Nat.add_right_comm k 1 j] at below fails
      exact .inl ⟨j + 1, Nat.succ_lt_succ inside, below, fails⟩
    · exact .inr ⟨j + 1, stop, by omega⟩

theorem written_lt_iff (start : k ≤ allocated) : (∀ j ∈ (assembleElements assembled k elements).1, j < allocated) ↔
    k + elements.length ≤ allocated ∨ EndsEarly assembled allocated k elements := by
  induction elements generalizing k with
  | nil => simp [assembleElements, start]
  | cons element elements ih =>
    rw [assembleElements, length_cons]
    split_ifs with unknown succeeds
    · exact iff_of_true nofun (.inr (.inr ⟨0, by rw [unknown]; rfl, start⟩))
    · by_cases below : k < allocated
      · simp [endsEarly_cons unknown, below, succeeds, ih below, Nat.add_right_comm k 1, Nat.add_assoc]
      · simp [endsEarly_cons unknown, below]
        omega
    · simp [endsEarly_cons unknown, succeeds]
      omega

theorem assembleJoinResponse_fits_iff (malloc : Bool) (assembled : ℕ → Bool) (radioCount : ℕ)
    (msgElemList : List JoinElement) : (assembleJoinResponse malloc assembled radioCount msgElemList).Fits ↔
      msgElemList = [] ∨ malloc = false ∨ radioCount ≤ 1 ∨
        EndsEarly assembled (msgElemList.length + 6) 0 (joinElements radioCount msgElemList) := by
  rw [assembleJoinResponse, ← or_assoc]
  split_ifs with ends
  · exact iff_of_true ⟨nofun, nofun⟩ (.inl ends)
  · have length : 0 + (joinElements radioCount msgElemList).length ≤ msgElemList.length + 6 ↔ radioCount ≤ 1 := by
      simp [joinElements]
      omega
    rw [or_iff_right ends, ← length, ← written_lt_iff (Nat.zero_le _)]
    refine ⟨fun fits j mem => fits.1 j (mem_append_right _ mem), fun inside =>
      ⟨fun j mem => ?_, fun n passed j below => ?_⟩⟩
    · exact (mem_append.1 mem).elim mem_range.1 (inside j)
    · cases (Option.ite_none_right_eq_some.1 passed).2
      exact mem_append_left _ (mem_range.2 below)

/-- Two radios and a result code: the index 7 is written behind the array of 7 elements. -/
theorem not_fits_two_radios :
    assembleJoinResponse true (fun _ => true) 2 [.resultCode] = ⟨7, range 7 ++ range 8, some 7⟩ ∧
      ¬ (assembleJoinResponse true (fun _ => true) 2 [.resultCode]).Fits :=
  ⟨by decide, fun fits => absurd (fits.1 7 (by decide)) (by decide)⟩

end OpenWifi.OpenCapwap
