import Mathlib.Tactic.Common

/-!
# Programs that read bytes

A `Reader` asks a source how much it may read, reads blocks, and in the end gives a value or fails.  `run` is a reader
on a source with a state of its own; `eval` is the same reader on a list of bytes that is all there is, and
`evalExact` is `eval` for a reader that never asks for more than there is.
-/

namespace OpenWifi

inductive Reader (ε : Type*)
  | done (result : Option ε)
  | ready (next : ℕ → Reader ε)
  | block (length : ℕ) (next : List UInt8 → Reader ε)

namespace Reader

variable {ε σ : Type*}

/-- The reader on a source: `ready` tells how many bytes may be read, and `block` reads at most so many
bytes, `none` when that is not defined. -/
def run (ready : σ → ℕ) (block : σ → ℕ → Option (List UInt8 × σ)) : Reader ε → σ → Option (Option ε × σ)
  | .done result, s => some (result, s)
  | .ready next, s => run ready block (next (ready s)) s
  | .block length next, s => (block s length).bind fun r => run ready block (next r.1) r.2

def eval : Reader ε → List UInt8 → Option ε × List UInt8
  | .done result, bytes => (result, bytes)
  | .ready next, bytes => (next bytes.length).eval bytes
  | .block length next, bytes => (next (bytes.take length)).eval (bytes.drop length)

/-- The reader on these bytes, `none` when it asks for more than there are left. -/
def evalExact : Reader ε → List UInt8 → Option (Option ε × List UInt8)
  | .done result, bytes => some (result, bytes)
  | .ready next, bytes => (next bytes.length).evalExact bytes
  | .block length next, bytes =>
    if length ≤ bytes.length then (next (bytes.take length)).evalExact (bytes.drop length) else none

def Safe : Reader ε → List UInt8 → Prop
  | .done _, _ => True
  | .ready next, bytes => (next bytes.length).Safe bytes
  | .block length next, bytes =>
    0 < length ∧ length ≤ bytes.length ∧ (next (bytes.take length)).Safe (bytes.drop length)

instance Safe.decidable : (reader : Reader ε) → (bytes : List UInt8) → Decidable (reader.Safe bytes)
  | .done _, _ => isTrue trivial
  | .ready next, bytes => Safe.decidable (next bytes.length) bytes
  | .block length next, bytes =>
    have := Safe.decidable (next (bytes.take length)) (bytes.drop length)
    inferInstanceAs (Decidable (0 < length ∧ length ≤ bytes.length ∧ _))

def Yields (P : ε → Prop) : Reader ε → Prop
  | .done result => ∀ v, result = some v → P v
  | .ready next => ∀ n, (next n).Yields P
  | .block _ next => ∀ bytes, (next bytes).Yields P

theorem Yields.run {P : ε → Prop} {ready : σ → ℕ} {block : σ → ℕ → Option (List UInt8 × σ)} {reader : Reader ε}
    {v : ε} {s s' : σ} (h : reader.Yields P) (run : reader.run ready block s = some (some v, s')) : P v := by
  induction reader generalizing s with
  | done result => exact h v (Prod.mk.inj (Option.some.inj run)).1
  | ready next ih => exact ih _ (h _) run
  | block length next ih =>
    obtain ⟨r, -, run⟩ := Option.bind_eq_some_iff.1 run
    exact ih _ (h _) run

end Reader

end OpenWifi
