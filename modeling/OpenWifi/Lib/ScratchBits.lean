import Mathlib.Tactic.Ring

/-!
# A conjunction in scratch bits

A register can collect the results of several tests in scratch bits.  A positive test starts with its bit cleared and
sets it when it fires; a negated one starts with its bit set and clears it.
-/

namespace OpenWifi.Scratch

open BitVec (eq_of_getLsbD_eq getLsbD_or getLsbD_and getLsbD_not twoPow getLsbD_of_ge ofNat getLsbD_ofNat)
open List

variable {w : ℕ}

def write (c value mask : BitVec w) : BitVec w := (c &&& ~~~mask) ||| value

theorem write_write (c value mask : BitVec w) : write (write c value mask) value mask = write c value mask := by
  refine eq_of_getLsbD_eq fun i h => ?_
  simp only [write, getLsbD_or, getLsbD_and, getLsbD_not, decide_eq_true h]
  cases c.getLsbD i <;> cases value.getLsbD i <;> cases mask.getLsbD i <;> rfl

/-- One bit is given the value `b`. -/
def assign (c : BitVec w) (k : ℕ) (b : Bool) : BitVec w := write c (if b then twoPow w k else 0) (twoPow w k)

variable {k : ℕ}

theorem getLsbD_assign (inside : k < w) (c : BitVec w) (b : Bool) (j : ℕ) :
    (assign c k b).getLsbD j = if j = k then b else c.getLsbD j := by
  by_cases eq : j = k
  · cases b <;> simp [assign, write, eq, inside]
  · have bit : (twoPow w k).getLsbD j = false := by simp [Ne.symm eq]
    have same : (c.getLsbD j && decide (j < w)) = c.getLsbD j := by
      by_cases small : j < w
      · simp [small]
      · simp [getLsbD_of_ge c j (not_lt.1 small)]
    cases b <;> simp [assign, write, bit, same, eq]

structure Stage (w : ℕ) where
  negated : Bool
  fires : BitVec w → Bool

/-- The stage is run for the bit `k`. -/
def Stage.run (s : Stage w) (k : ℕ) (c : BitVec w) : BitVec w := if s.fires c then assign c k (!s.negated) else c

/-- The stages are run for the bits from `k` on; a bit without a stage is left alone. -/
def runStages : ℕ → List (Option (Stage w)) → BitVec w → BitVec w
  | _, [], c => c
  | k, s :: rest, c => runStages (k + 1) rest (s.elim c fun s => s.run k c)

theorem runStages_append (k : ℕ) (a b : List (Option (Stage w))) (c : BitVec w) :
    runStages k (a ++ b) c = runStages (k + a.length) b (runStages k a c) := by
  induction a generalizing k c with
  | nil => rfl
  | cons s a ih =>
    rw [cons_append, runStages, runStages, ih, length_cons]
    congr 1
    omega

theorem getLsbD_run (inside : k < w) (s : Stage w) (c : BitVec w) (j : ℕ) :
    (s.run k c).getLsbD j = if j = k ∧ s.fires c then !s.negated else c.getLsbD j := by
  by_cases fires : s.fires c
  · simp [Stage.run, fires, getLsbD_assign inside]
  · simp [Stage.run, fires]

variable {stages : List (Option (Stage w))}

theorem getLsbD_runStages_outside {k j : ℕ} (inside : k + stages.length ≤ w)
    (other : j < k ∨ k + stages.length ≤ j) (c : BitVec w) : (runStages k stages c).getLsbD j = c.getLsbD j := by
  induction stages generalizing k c with
  | nil => rfl
  | cons s stages ih =>
    rw [length_cons] at inside other
    rw [runStages, ih (by omega) (by omega)]
    cases s with
    | none => rfl
    | some s =>
      have ne : j ≠ k := by omega
      exact (getLsbD_run (by omega) s c j).trans (if_neg fun h => ne h.1)

/-! ## The collected result -/

def passes : ℕ → List (Option (Stage w)) → BitVec w → Bool
  | _, [], _ => true
  | k, none :: rest, c => passes (k + 1) rest c
  | k, some s :: rest, c => (s.fires c == !s.negated) && passes (k + 1) rest (s.run k c)

/-- The bits from `k` on that are written for a list of flags. -/
def total : ℕ → List Bool → ℕ
  | _, [] => 0
  | k, b :: bits => (if b then 2 ^ k else 0) + total (k + 1) bits

theorem total_eq (k : ℕ) (bits : List Bool) : total k bits = 2 ^ k * bits.foldr Nat.bit 0 := by
  induction bits generalizing k with
  | nil => rfl
  | cons b bits ih =>
    rw [total, ih, foldr_cons, Nat.bit_val, Nat.pow_succ]
    cases b <;> simp <;> ring

theorem testBit_foldr_bit (bits : List Bool) (i : ℕ) : (bits.foldr Nat.bit 0).testBit i = bits[i]?.getD false := by
  induction bits generalizing i with
  | nil => simp
  | cons b bits ih =>
    cases i with
    | zero => simp
    | succ i => rw [foldr_cons, Nat.testBit_succ, Nat.bit_div_two, ih, getElem?_cons_succ]

theorem testBit_total (k : ℕ) (bits : List Bool) (j : ℕ) :
    (total k bits).testBit j = (decide (k ≤ j) && bits[j - k]?.getD false) := by
  rw [total_eq, Nat.testBit_two_pow_mul, testBit_foldr_bit]

theorem total_lt (k : ℕ) (bits : List Bool) : total k bits < 2 ^ (k + bits.length) := by
  refine Nat.lt_pow_two_of_testBit _ fun j large => ?_
  rw [testBit_total, getElem?_eq_none (by omega)]
  simp

theorem total_append_false (k : ℕ) (bits : List Bool) : total k (bits ++ [false]) = total k bits := by
  induction bits generalizing k with
  | nil => rfl
  | cons b bits ih => rw [cons_append, total, total, ih]

variable {bits : List Bool}

theorem total_eq_zero (clear : ∀ b ∈ bits, b = false) (k : ℕ) : total k bits = 0 := by
  induction bits generalizing k with
  | nil => rfl
  | cons b bits ih =>
    rw [total, clear b mem_cons_self, ih fun b mem => clear b (mem_cons_of_mem _ mem)]
    rfl

def present (stages : List (Option (Stage w))) : List Bool := stages.map Option.isSome

def inverted (stages : List (Option (Stage w))) : List Bool := stages.map (Option.any Stage.negated)

/-- **The bits collect the conjunction.**  When the stages start with the bits of the negated ones, the bits of all
stages are set in the end exactly if each stage had its effect. -/
theorem getLsbD_runStages_iff_passes (inside : k + stages.length ≤ w) {c : BitVec w}
    (ready : ∀ i < stages.length, c.getLsbD (k + i) = (inverted stages)[i]?.getD false) :
    (∀ i < stages.length, (runStages k stages c).getLsbD (k + i) = (present stages)[i]?.getD false) ↔
      passes k stages c := by
  induction stages generalizing k c with
  | nil => exact iff_of_true nofun rfl
  | cons s stages ih =>
    rw [length_cons] at inside ready ⊢
    have own : c.getLsbD k = s.any Stage.negated := ready 0 (Nat.succ_pos _)
    rw [Nat.forall_lt_succ_left]
    have first : ∀ c', (runStages (k + 1) stages c').getLsbD (k + 0) = c'.getLsbD k := fun c' =>
      getLsbD_runStages_outside (by omega) (.inl (by omega)) c'
    have later : ∀ i, k + (i + 1) = k + 1 + i := fun i => by omega
    have rest : ∀ i < stages.length, c.getLsbD (k + 1 + i) = (inverted stages)[i]?.getD false := fun i h => by
      rw [← later]
      exact ready (i + 1) (Nat.succ_lt_succ h)
    cases s with
    | none =>
      rw [passes, ← ih (by omega) rest]
      simp only [runStages, Option.elim_none, first]
      refine (and_iff_right own).trans (forall₂_congr fun i _ => ?_)
      rw [later i]
      rfl
    | some s =>
      have rest' : ∀ i < stages.length, (s.run k c).getLsbD (k + 1 + i) = (inverted stages)[i]?.getD false :=
        fun i h => by
        rw [getLsbD_run (by omega), if_neg (by omega), rest i h]
      rw [passes, Bool.and_eq_true, ← ih (by omega) rest']
      simp only [runStages, Option.elim_some, first]
      refine and_congr ?_ (forall₂_congr fun i _ => by rw [later i]; rfl)
      rw [getLsbD_run (by omega), own]
      cases s.fires c <;> cases negated : s.negated <;> simp [present, negated]

variable {mask : BitVec w}

theorem and_mask_eq_iff (masks : ∀ j < w, mask.getLsbD j = decide (k ≤ j)) (inside : k + bits.length ≤ w)
    (c : BitVec w) :
    c &&& mask = ofNat w (total k bits) ↔ ∀ i, c.getLsbD (k + i) = bits[i]?.getD false := by
  constructor
  · intro eq i
    by_cases small : k + i < w
    · have bit : (c &&& mask).getLsbD (k + i) = _ := congrArg (BitVec.getLsbD · (k + i)) eq
      rw [getLsbD_and, masks _ small, getLsbD_ofNat, testBit_total] at bit
      simpa [-BitVec.getLsbD_eq_getElem, small] using bit
    · rw [getLsbD_of_ge c _ (not_lt.1 small), getElem?_eq_none (by omega)]
      rfl
  · intro bits
    refine eq_of_getLsbD_eq fun j small => ?_
    rw [getLsbD_and, masks j small, getLsbD_ofNat, testBit_total]
    by_cases high : k ≤ j
    · have bit := bits (j - k)
      rw [Nat.add_sub_cancel' high] at bit
      simp [-BitVec.getLsbD_eq_getElem, high, bit, small]
    · simp [high]

theorem getLsbD_write_total (masks : ∀ j < w, mask.getLsbD j = decide (k ≤ j))
    (inside : k + bits.length ≤ w) (c : BitVec w) (j : ℕ) :
    (write c (ofNat w (total k bits)) mask).getLsbD j = if k ≤ j then bits[j - k]?.getD false else c.getLsbD j := by
  by_cases small : j < w
  · rw [write, getLsbD_or, getLsbD_and, getLsbD_not, masks j small, getLsbD_ofNat, testBit_total]
    by_cases high : k ≤ j <;> simp [high, small]
  · rw [getLsbD_of_ge _ _ (not_lt.1 small), getElem?_eq_none (by omega),
      getLsbD_of_ge c _ (not_lt.1 small)]
    simp

theorem runStages_and_mask_iff (masks : ∀ j < w, mask.getLsbD j = decide (k ≤ j))
    (inside : k + stages.length ≤ w) {d : BitVec w}
    (ready : ∀ i, d.getLsbD (k + i) = (inverted stages)[i]?.getD false) :
    runStages k stages d &&& mask = ofNat w (total k (present stages)) ↔ passes k stages d := by
  rw [and_mask_eq_iff masks (by rwa [present, length_map]), ← getLsbD_runStages_iff_passes inside fun i _ => ready i]
  refine ⟨fun h i _ => h i, fun h i => ?_⟩
  by_cases early : i < stages.length
  · exact h i early
  · rw [getLsbD_runStages_outside inside (.inr (by omega)), ready, getElem?_eq_none (by simpa [inverted] using early),
      getElem?_eq_none (by simpa [present] using early)]

theorem passes_append (k : ℕ) (a b : List (Option (Stage w))) (c : BitVec w) :
    passes k (a ++ b) c = (passes k a c && passes (k + a.length) b (runStages k a c)) := by
  induction a generalizing k c with
  | nil => rfl
  | cons s a ih =>
    have next : k + (s :: a).length = k + 1 + a.length := by rw [length_cons]; omega
    cases s with
    | none => rw [cons_append, passes, passes, ih, runStages, next]; rfl
    | some s => rw [cons_append, passes, passes, ih, runStages, next, Bool.and_assoc]; rfl

theorem runStages_of_passes (masks : ∀ j < w, mask.getLsbD j = decide (k ≤ j))
    {a b : List (Option (Stage w))} (inside : k + (a ++ b).length ≤ w) {c d : BitVec w}
    (low : ∀ j < k, d.getLsbD j = c.getLsbD j) (ready : ∀ i, d.getLsbD (k + i) = (inverted (a ++ b))[i]?.getD false)
    (pass : passes k a d) : runStages k a d = write c (ofNat w (total k (present a ++ inverted b))) mask := by
  rw [length_append] at inside
  have front : (inverted a).length = a.length := length_map ..
  have front' : (present a).length = a.length := length_map ..
  have split : inverted (a ++ b) = inverted a ++ inverted b := map_append
  rw [split] at ready
  have own := (getLsbD_runStages_iff_passes (by omega) fun i h => by
    rw [ready, getElem?_append_left (by omega)]).2 pass
  refine eq_of_getLsbD_eq fun j _ => ?_
  rw [getLsbD_write_total masks (by simp [present, inverted]; omega)]
  by_cases high : k ≤ j
  · obtain ⟨i, rfl⟩ := Nat.exists_eq_add_of_le high
    rw [if_pos high, Nat.add_sub_cancel_left]
    by_cases early : i < a.length
    · rw [own i early, getElem?_append_left (by omega)]
    · rw [getLsbD_runStages_outside (by omega) (.inr (by omega)), ready, getElem?_append_right (by omega),
        getElem?_append_right (by omega), front, front']
  · rw [if_neg high, getLsbD_runStages_outside (by omega) (.inl (by omega)), low j (by omega)]

/-- What the stage of the bit `k + i` reads when all stages before it had their effect. -/
def view (k : ℕ) (mask c : BitVec w) (stages : List (Option (Stage w))) (i : ℕ) : BitVec w :=
  write c (ofNat w (total k (present (stages.take i) ++ inverted (stages.drop i)))) mask

theorem passes_iff_view (masks : ∀ j < w, mask.getLsbD j = decide (k ≤ j)) (inside : k + stages.length ≤ w)
    {c d : BitVec w}
    (low : ∀ j < k, d.getLsbD j = c.getLsbD j) (ready : ∀ i, d.getLsbD (k + i) = (inverted stages)[i]?.getD false) :
    passes k stages d ↔
      ∀ i (s : Stage w), stages[i]? = some (some s) → s.fires (view k mask c stages i) = !s.negated := by
  -- by induction on the number of stages that have run
  have front : ∀ n ≤ stages.length, passes k (stages.take n) d ↔
      ∀ i < n, ∀ s : Stage w, stages[i]? = some (some s) → s.fires (view k mask c stages i) = !s.negated := by
    intro n bound
    induction n with
    | zero => simp [passes]
    | succ n ih =>
      have within : n < stages.length := bound
      have length : (stages.take n).length = n := by rw [length_take]; omega
      rw [take_succ_eq_append_getElem within, passes_append, Bool.and_eq_true, Nat.forall_lt_succ_right, length]
      rw [← ih (by omega)]
      refine and_congr_right fun pass => ?_
      have register : runStages k (stages.take n) d = view k mask c stages n :=
        runStages_of_passes masks (by rwa [take_append_drop]) low (by rwa [take_append_drop]) pass
      rw [register, getElem?_eq_getElem within]
      rcases stages[n] with _ | s
      · simp [passes]
      · simp [passes]
  rw [← take_length (l := stages), front _ le_rfl, take_length]
  refine ⟨fun h i s at_i => h i ?_ s at_i, fun h i _ => h i⟩
  exact (List.getElem?_eq_some_iff.1 at_i).1

end OpenWifi.Scratch
