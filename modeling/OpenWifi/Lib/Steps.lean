import Mathlib.Tactic.Common

/-!
# Runs of a state machine

A state machine is a function `step` from a state and an event to the next state, if there is one.  `runFrom` is a run
over a list of events, and `Along C` says that every step of a run meets the condition `C`.
-/

namespace OpenWifi

open Option

variable {σ ε : Type*} {step : σ → ε → Option σ}

/-- The state after the events, `none` when one of them has no next state. -/
def runFrom (step : σ → ε → Option σ) : σ → List ε → Option σ
  | s, [] => some s
  | s, e :: es => (step s e).bind fun s' => runFrom step s' es

/-- Every step of the run meets `C`. -/
def Along (step : σ → ε → Option σ) (C : σ → ε → Prop) : σ → List ε → Prop
  | _, [] => True
  | s, e :: es => C s e ∧ ∀ s', step s e = some s' → Along step C s' es

instance Along.decidable {C : σ → ε → Prop} [∀ s e, Decidable (C s e)] :
    (s : σ) → (es : List ε) → Decidable (Along step C s es)
  | _, [] => isTrue trivial
  | s, e :: es =>
    match h : step s e with
    | none => decidable_of_iff (C s e) ⟨fun c => ⟨c, fun _ h' => absurd (h.symm.trans h') nofun⟩, fun a => a.1⟩
    | some t =>
      have := Along.decidable (C := C) t es
      decidable_of_iff (C s e ∧ Along step C t es)
        ⟨fun a => ⟨a.1, fun _ h' => some.inj (h.symm.trans h') ▸ a.2⟩, fun a => ⟨a.1, a.2 t h⟩⟩

variable {es : List ε}

theorem runFrom_cons {s s' : σ} {e : ε} (h : runFrom step s (e :: es) = some s') :
    ∃ t, step s e = some t ∧ runFrom step t es = some s' :=
  bind_eq_some_iff.1 h

/-- The state of a run that ends, with what is computed about it and what follows. -/
theorem run_and {x : Option σ} {q r : σ → Prop} (found : ∃ s, x = some s ∧ q s) (rest : ∀ s, x = some s → q s → r s) :
    ∃ s, x = some s ∧ q s ∧ r s :=
  found.imp fun s h => ⟨h.1, h.2, rest s h.1 h.2⟩

variable {P : σ → Prop}

theorem runFrom_simulation {τ : Type*} {R : σ → τ → Prop} {f : τ → ε → τ}
    (sim : ∀ s a e s', R s a → step s e = some s' → R s' (f a e)) {s s' : σ} {a : τ} (start : R s a)
    (run : runFrom step s es = some s') : R s' (es.foldl f a) := by
  induction es generalizing s a with
  | nil => exact some.inj run ▸ start
  | cons e es ih =>
    obtain ⟨t, first, rest⟩ := runFrom_cons run
    exact ih (sim s a e t start first) rest

theorem runFrom_invariant (kept : ∀ s e s', P s → step s e = some s' → P s') {s s' : σ}
    (start : P s) (run : runFrom step s es = some s') : P s' :=
  runFrom_simulation (R := fun s _ => P s) (f := fun _ _ => ()) (a := ()) (fun s _ => kept s) start run

theorem Along.invariant {C : σ → ε → Prop}
    (kept : ∀ s e s', P s → C s e → step s e = some s' → P s') {s s' : σ} (start : P s)
    (along : Along step C s es) (run : runFrom step s es = some s') : P s' := by
  induction es generalizing s with
  | nil =>
    obtain rfl : s = s' := some.inj run
    exact start
  | cons e es ih =>
    obtain ⟨t, first, rest⟩ := runFrom_cons run
    exact ih (kept s e t start along.1 first) (along.2 t first) rest

theorem Along.imp {C D : σ → ε → Prop}
    (kept : ∀ s e s', P s → C s e → step s e = some s' → P s') (imp : ∀ s e, P s → C s e → D s e)
    {s : σ} (start : P s) (along : Along step C s es) : Along step D s es := by
  induction es generalizing s with
  | nil => trivial
  | cons e es ih => exact ⟨imp s e start along.1, fun t first => ih (kept s e t start along.1 first) (along.2 t first)⟩

theorem Along.of_mem {C D : σ → ε → Prop} (imp : ∀ s, ∀ e ∈ es, C s e → D s e) {s : σ}
    (along : Along step C s es) : Along step D s es := by
  induction es generalizing s with
  | nil => trivial
  | cons e es ih =>
    exact ⟨imp s e List.mem_cons_self along.1, fun t first =>
      ih (fun s e mem => imp s e (List.mem_cons_of_mem _ mem)) (along.2 t first)⟩

theorem Along.simulation {τ : Type*} {C : σ → ε → Prop} {R : σ → τ → Prop} {f : τ → ε → τ}
    (sim : ∀ s a e, R s a → C s e → ∃ s', step s e = some s' ∧ R s' (f a e)) {s : σ} {a : τ}
    (start : R s a) (along : Along step C s es) : ∃ s', runFrom step s es = some s' ∧ R s' (es.foldl f a) := by
  induction es generalizing s a with
  | nil => exact ⟨s, rfl, start⟩
  | cons e es ih =>
    obtain ⟨t, first, related⟩ := sim s a e start along.1
    obtain ⟨s', rest, related'⟩ := ih related (along.2 t first)
    exact ⟨s', by rw [runFrom, first, bind_some, rest], related'⟩

end OpenWifi
