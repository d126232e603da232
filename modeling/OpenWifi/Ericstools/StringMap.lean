import OpenWifi.Ericstools.PriorityQueue

/-!
# The map of strings

`string_map` keeps the elements of all strings in a `long_map`, under the hashes of the strings.  It is a map on a set
of strings exactly if they have different hashes.
-/

namespace OpenWifi.Ericstools

open Function (update update_self update_of_ne)
open Option

variable {K β : Type}

/-- What the `long_map` holds: a `string_map_key_value` with a copy of the key, or the value itself. -/
inductive Stored (K β : Type) where
  | pair (key : K) (value : Option β)
  | plain (value : β)

def Stored.value : Stored K β → Option β
  | .pair _ value => value
  | .plain value => some value

structure StringMap (K β : Type) where
  storeKeys : Bool
  lm : LongMap ℕ (Stored K β)
  numElements : ℕ

inductive StringOp (K β : Type) where
  | set (key : K) (value : Option β)
  | remove (key : K)
  | get (key : K)

def StringOp.key : StringOp K β → K
  | .set key _ | .remove key | .get key => key

namespace StringMap

/-- `initialize_string_map`. -/
def initializeStringMap (storeKeys : Bool) : StringMap K β := ⟨storeKeys, .initializeLongMap, 0⟩

section

variable (hash : K → ℕ) (map : StringMap K β) (key : K)

/-- `get_string_map_element`. -/
def getElement : StringMap K β × Option β :=
  ({ map with numElements := map.lm.numElements }, (map.lm.get (hash key)).bind Stored.value)

def stored (value : Option β) : Option (Stored K β) :=
  if map.storeKeys then some (.pair key value) else value.map .plain

theorem stored_value (value : Option β) : (map.stored key value).bind Stored.value = value := by
  cases value <;> cases keys : map.storeKeys <;> simp [stored, keys, Stored.value]

/-- `set_string_map_element`. -/
def setElement (value : Option β) : Option (StringMap K β × Option β) :=
  (map.lm.set (hash key) (map.stored key value)).map fun (lm, old) =>
    (⟨map.storeKeys, lm, lm.numElements⟩, old.bind Stored.value)

/-- `remove_string_map_element`. -/
def removeElement : Option (StringMap K β × Option β) :=
  (map.lm.remove (hash key)).map fun (lm, old) => (⟨map.storeKeys, lm, lm.numElements⟩, old.bind Stored.value)

def step : StringOp K β → Option (StringMap K β)
  | .set key value => (map.setElement hash key value).map Prod.fst
  | .remove key => (map.removeElement hash key).map Prod.fst
  | .get key => some (map.getElement hash key).1

end

/-- The values that were last set and not removed since. -/
def lastSet [DecidableEq K] (value : K → Option β) : StringOp K β → K → Option β
  | .set key new => update value key new
  | .remove key => update value key none
  | .get _ => value

/-- For every sequence of operations on the strings of `keys`, the elements that are seen for them are those of a map.
-/
def IsMapOn [DecidableEq K] (β : Type) (hash : K → ℕ) (storeKeys : Bool) (keys : Set K) : Prop :=
  ∀ ops : List (StringOp K β), (∀ op ∈ ops, op.key ∈ keys) →
    ∃ map, runFrom (step hash) (initializeStringMap storeKeys) ops = some map ∧
      ∀ key ∈ keys, (map.getElement hash key).2 = ops.foldl lastSet (fun _ => none) key

variable [DecidableEq K] {hash : K → ℕ} {keys : Set K} {map : StringMap K β} {value : K → Option β}

def Shows (hash : K → ℕ) (keys : Set K) (m : Contents ℕ (Stored K β)) (value : K → Option β) : Prop :=
  ∀ key ∈ keys, (m (hash key)).join.bind Stored.value = value key

variable (distinct : Set.InjOn hash keys)
include distinct

theorem Shows.update {m : Contents ℕ (Stored K β)} (shows : Shows hash keys m value) {key : K} (mem : key ∈ keys)
    (e : Option (Option (Stored K β))) :
    Shows hash keys (update m (hash key) e) (update value key (e.join.bind Stored.value)) := by
  intro key' mem'
  by_cases same : key' = key
  · rw [same, update_self, update_self]
  · rw [update_of_ne fun eq => same (distinct mem' mem eq), update_of_ne same, shows key' mem']

theorem exists_step {m : Contents ℕ (Stored K β)} (holds : map.lm.Holds m) (shows : Shows hash keys m value)
    (op : StringOp K β) (mem : op.key ∈ keys) :
    ∃ map' m', map.step hash op = some map' ∧ map'.lm.Holds m' ∧ Shows hash keys m' (lastSet value op) := by
  cases op with
  | set key new =>
    obtain ⟨lm, run, holds'⟩ := holds.set (hash key) (map.stored key new)
    refine ⟨⟨map.storeKeys, lm, lm.numElements⟩, _, by rw [step, setElement, run]; rfl, holds', ?_⟩
    have seen := shows.update distinct mem (some (map.stored key new))
    rwa [join_some, stored_value] at seen
  | remove key =>
    obtain ⟨lm, run, holds'⟩ := holds.remove (hash key)
    exact ⟨⟨map.storeKeys, lm, lm.numElements⟩, _,
      by rw [step, removeElement, run]; rfl, holds', shows.update distinct mem none⟩
  | get key => exact ⟨_, m, rfl, holds, shows⟩

theorem exists_run {m : Contents ℕ (Stored K β)} (holds : map.lm.Holds m) (shows : Shows hash keys m value)
    (ops : List (StringOp K β)) (mem : ∀ op ∈ ops, op.key ∈ keys) :
    ∃ map' m', runFrom (step hash) map ops = some map' ∧ map'.lm.Holds m' ∧
    Shows hash keys m' (ops.foldl lastSet value) := by
  induction ops generalizing map m value with
  | nil => exact ⟨map, m, rfl, holds, shows⟩
  | cons op ops ih =>
    obtain ⟨first, rest⟩ := List.forall_mem_cons.1 mem
    obtain ⟨map₁, m₁, run, holds₁, shows₁⟩ := exists_step distinct holds shows op first
    obtain ⟨map', m', run', last⟩ := ih holds₁ shows₁ rest
    exact ⟨map', m', by rw [runFrom, run, bind_some, run'], last⟩

omit distinct

theorem IsMapOn.injOn {storeKeys : Bool} (isMap : IsMapOn β hash storeKeys keys) (x : β) : Set.InjOn hash keys := by
  intro key mem key' mem' same
  by_contra ne
  -- one of the strings is set, and the element is seen for the other one
  obtain ⟨map, run, seen⟩ := isMap [.set key (some x)] (by simpa [StringOp.key] using mem)
  have own := seen key mem
  have other := seen key' mem'
  rw [getElement, ← same] at other
  rw [getElement, other] at own
  simp [lastSet, update_of_ne (Ne.symm ne)] at own

/-- **`string_map` is a map exactly on strings with different hashes.** -/
theorem isMapOn_iff [Inhabited β] (w : ℕ) (storeKeys : Bool) (keys : Set (List (BitVec 32))) :
    IsMapOn β (sdbmStringHash w) storeKeys keys ↔ Set.InjOn (sdbmStringHash w) keys := by
  refine ⟨fun isMap => isMap.injOn default, fun distinct ops mem => ?_⟩
  have start : (initializeStringMap storeKeys : StringMap (List (BitVec 32)) β).lm.Holds fun _ =>
    none := LongMap.holds_initialize
  have shows : Shows (sdbmStringHash w) keys (fun _ => none) fun _ => (none : Option β) := fun _ _ => rfl
  obtain ⟨map, m, run, holds, shows⟩ := exists_run distinct start shows ops mem
  refine ⟨map, run, fun key there => ?_⟩
  rw [getElement, holds.get_eq, shows key there]

def ascii (s : String) : List (BitVec 32) := s.toList.map fun c => BitVec.ofNat 32 c.toNat

/-- Two strings have one hash. -/
theorem not_isMapOn_ascii : ¬ IsMapOn ℕ (sdbmStringHash 32) false {ascii "acapaagmaeah", ascii "dajaehaaraea"} := by
  have same : sdbmStringHash 32 (ascii "acapaagmaeah") = sdbmStringHash 32 (ascii "dajaehaaraea") := by decide +kernel
  exact fun isMap => absurd (isMap.injOn 0 (.inl rfl) (.inr rfl) same) (by decide +kernel)

end StringMap

end OpenWifi.Ericstools
