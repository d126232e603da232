import OpenWifi.CapwapHash.Insertion
import OpenWifi.CapwapHash.Search
import OpenWifi.CapwapHash.Traversal

/-!
# Runs of a hash

A run is a sequence of calls of `capwap_hash_add`, `capwap_hash_delete` and `capwap_hash_foreach` on a new hash.
-/

namespace OpenWifi.CapwapHash

open List Zipper Avl LinkedTree

variable {κ δ : Type}

/-! ## Logs -/

inductive Event (κ δ : Type)
  | stored (data : δ)
  | removed (key : κ)

inductive Op (κ δ : Type)
  | add (data : δ)
  | delete (key : κ)
  | foreach (verdict : ℕ → δ → Verdict)

section

variable [LinearOrder κ] (cb : Callbacks κ δ)

def current : List (Event κ δ) → κ → Option δ
  | [], _ => none
  | .stored data :: log, key => if cb.itemGetkey data = key then some data else current log key
  | .removed key' :: log, key => if key' = key then none else current log key

def Event.key : Event κ δ → κ
  | stored data => cb.itemGetkey data
  | removed key => key

def present (log : List (Event κ δ)) : Finset κ :=
  (log.map (Event.key cb)).toFinset.filter fun key => (current cb log key).isSome

theorem current_eq_some {log : List (Event κ δ)} {key : κ} {d : δ} (h : current cb log key = some d) :
    cb.itemGetkey d = key ∧ key ∈ log.map (Event.key cb) := by
  induction log with
  | nil => simp [current] at h
  | cons e log ih =>
    rw [map_cons, mem_cons]
    cases e with
    | stored data =>
      rw [current] at h
      split_ifs at h with hk
      · rw [Option.some.injEq] at h
        subst h
        exact ⟨hk, .inl hk.symm⟩
      · exact ⟨(ih h).1, .inr (ih h).2⟩
    | removed key' =>
      rw [current] at h
      split_ifs at h
      exact ⟨(ih h).1, .inr (ih h).2⟩

theorem mem_present {log : List (Event κ δ)} {key : κ} : key ∈ present cb log ↔ ∃ d, current cb log key = some d := by
  rw [present, Finset.mem_filter, mem_toFinset, Option.isSome_iff_exists]
  constructor
  · exact fun h => h.2
  · rintro ⟨d, hd⟩
    exact ⟨(current_eq_some cb hd).2, d, hd⟩

theorem current_removed (keys : List κ) (log : List (Event κ δ)) (key : κ) :
    current cb (keys.map .removed ++ log) key = if key ∈ keys then none else current cb log key := by
  induction keys with
  | nil => simp
  | cons k keys ih =>
    rw [map_cons, cons_append, current, ih]
    by_cases hk : k = key
    · simp [hk]
    · simp [hk, Ne.symm hk]

/-! ## Runs -/

def step (fuel : ℕ) (st : Hash δ × List (Event κ δ)) : Op κ δ → Option (Hash δ × List (Event κ δ))
  | .add data => do
      let hash ← add cb fuel st.1 data
      pure (hash, .stored data :: st.2)
  | .delete key => do
      let hash ← delete cb fuel st.1 key
      pure (hash, .removed key :: st.2)
  | .foreach verdict => do
      let (hash, calls) ← foreach cb verdict fuel st.1
      pure (hash, (deleted calls).map (fun d => .removed (cb.itemGetkey d)) ++ st.2)

inductive Run : Hash δ × List (Event κ δ) → List (Op κ δ) → Hash δ × List (Event κ δ) → Prop
  | nil (st : Hash δ × List (Event κ δ)) : Run st [] st
  | cons {st st' st'' : Hash δ × List (Event κ δ)} {op : Op κ δ} {ops : List (Op κ δ)}
      (head : Returns (fun fuel => step cb fuel st op) st') (rest : Run st' ops st'') :
      Run st (op :: ops) st''

/-- The hash holds the trees `T`, and what they store is what the log says. -/
structure Tracks (st : Hash δ × List (Event κ δ)) (T : ℕ → ITree δ) : Prop where
  rep : Rep cb st.1 T
  log : ∀ d, Stored st.1.hashsize T d ↔ current cb st.2 (cb.itemGetkey d) = some d

def SearchReaches (hash : Hash δ) (key : κ) : Prop :=
  ∀ T, Rep cb hash T → Reaches cb key (T (cb.itemGethash key hash.hashsize))

variable {st : Hash δ × List (Event κ δ)}

theorem Tracks.answers {T : ℕ → ITree δ} (tracks : Tracks cb st T)
    (key : κ) : Answers cb st.1.hashsize T key (current cb st.2 key) := by
  intro d
  rw [tracks.log]
  constructor
  · intro h
    obtain ⟨rfl, -⟩ := current_eq_some cb h
    exact ⟨h, rfl⟩
  · rintro ⟨h, rfl⟩
    exact h

theorem Tracks.count_eq {T : ℕ → ITree δ} (tracks : Tracks cb st T) : st.1.count = (present cb st.2).card := by
  have rep := tracks.rep
  have keys : present cb st.2 = (Finset.range st.1.hashsize).biUnion fun i =>
      ((datas (T i)).map cb.itemGetkey).toFinset := by
    ext key
    simp only [mem_present, Finset.mem_biUnion, Finset.mem_range, mem_toFinset, mem_map]
    constructor
    · rintro ⟨d, hd⟩
      obtain ⟨⟨i, hi, hdi⟩, hk⟩ := (tracks.answers cb key d).1 hd
      exact ⟨i, hi, d, hdi, hk⟩
    · rintro ⟨i, hi, d, hdi, hk⟩
      exact ⟨d, (tracks.answers cb key d).2 ⟨⟨i, hi, hdi⟩, hk⟩⟩
  rw [rep.count_eq, keys, Finset.card_biUnion]
  · apply Finset.sum_congr rfl
    intro i hi
    rw [toFinset_card_of_nodup, length_map]
    have ordered := rep.sorted i (Finset.mem_range.1 hi)
    exact (pairwise_map.2 ordered).imp fun h => ne_of_lt h
  · intro i hi j hj hij
    rw [Function.onFun, Finset.disjoint_left]
    simp only [mem_toFinset, mem_map]
    rw [Finset.mem_coe] at hi hj
    rintro key ⟨d, hd, rfl⟩ ⟨e, he, hk⟩
    apply hij
    rw [← rep.placed i (Finset.mem_range.1 hi) d hd, ← hk]
    exact rep.placed j (Finset.mem_range.1 hj) e he

def runWith (fuel : ℕ) (st : Hash δ × List (Event κ δ)) : List (Op κ δ) → Option (Hash δ × List (Event κ δ))
  | [] => some st
  | op :: ops => do
      let st ← step cb fuel st op
      runWith fuel st ops

theorem Run.returns {ops : List (Op κ δ)} {st st' : Hash δ × List (Event κ δ)} (run : Run cb st ops st') :
    Returns (fun fuel => runWith cb fuel st ops) st' := by
  induction run with
  | nil st => exact .of_forall fun _ => rfl
  | cons head _ ih => exact head.bind ih

/-! ## A run refines a finite map -/

def OpReaches (st : Hash δ × List (Event κ δ)) : Op κ δ → Prop
  | .delete key => SearchReaches cb st.1 key
  | _ => True

def RunReaches : Hash δ × List (Event κ δ) → List (Op κ δ) → Prop
  | _, [] => True
  | st, op :: ops => OpReaches cb st op ∧ ∀ st', Returns (fun fuel => step cb fuel st op) st' → RunReaches st' ops

theorem tracks_create {hashsize : ℕ} (pos : 0 < hashsize) :
    Tracks cb ((create hashsize : Hash δ), ([] : List (Event κ δ))) fun _ => .nil :=
  ⟨rep_create cb pos, by simp [Stored, current]⟩

theorem Tracks.step {T : ℕ → ITree δ} (tracks : Tracks cb st T) {op : Op κ δ} (reaches : OpReaches cb st op) :
    ∃ st' T', Returns (fun fuel => step cb fuel st op) st' ∧ Tracks cb st' T' := by
  obtain ⟨hash, log⟩ := st
  obtain ⟨rep, logged⟩ := tracks
  cases op with
  | add data =>
    obtain ⟨hash', t, ret, size, rep', entries, -⟩ := add_returns cb rep data rfl
    refine ⟨(hash', .stored data :: log), _, ret.bind (.of_forall fun _ => rfl), rep', fun d => ?_⟩
    simp only at logged size ⊢
    rw [size, rep.stored_splice cb rfl entries, logged, current, Option.some.injEq]
    by_cases hk : cb.itemGetkey data = cb.itemGetkey d
    · simp [hk]
    · have hd : data ≠ d := fun e => hk (e ▸ rfl)
      simp [hk, hd, Ne.symm hk]
  | delete key =>
    rcases delete_spec cb rep key rfl with ⟨-, hash', T', ret, size, rep', stored, -⟩ | ⟨not, -⟩
    · refine ⟨(hash', .removed key :: log), T', ret.bind (.of_forall fun _ => rfl), rep', fun d => ?_⟩
      simp only at logged size ⊢
      rw [size, stored, logged, current]
      by_cases hk : key = cb.itemGetkey d
      · simp [hk]
      · simp [hk, Ne.symm hk]
    · exact absurd (reaches T rep) not
  | foreach verdict =>
    obtain ⟨hash', T', w, ret, -, size, rep', stored, -⟩ := foreach_returns cb verdict rep
    refine ⟨(hash', (deleted w.calls).map (fun d => .removed (cb.itemGetkey d)) ++ log), T',
      ret.bind (.of_forall fun _ => rfl), rep', fun d => ?_⟩
    have keys : (deleted w.calls).map (fun d => (.removed (cb.itemGetkey d) : Event κ δ)) =
        ((deleted w.calls).map cb.itemGetkey).map .removed := by
      simp [Function.comp_def]
    simp only at logged size ⊢
    rw [size, stored, logged, keys, current_removed]
    by_cases hk : cb.itemGetkey d ∈ (deleted w.calls).map cb.itemGetkey
    · obtain ⟨e, he, hke⟩ := mem_map.1 hk
      simp only [hk, if_true]
      refine iff_of_false (fun h => h.2 e he hke.symm) (by simp)
    · simp only [hk, if_false]
      refine ⟨fun h => h.1, fun h => ⟨h, fun e he hke => hk ?_⟩⟩
      exact hke ▸ mem_map_of_mem he

theorem Tracks.run {ops : List (Op κ δ)} :
    ∀ {st : Hash δ × List (Event κ δ)} {T : ℕ → ITree δ}, Tracks cb st T → RunReaches cb st ops →
      ∃ st' T', Run cb st ops st' ∧ Tracks cb st' T' := by
  induction ops with
  | nil =>
    intro st T tracks _
    exact ⟨st, T, .nil st, tracks⟩
  | cons op ops ih =>
    intro st T tracks reaches
    obtain ⟨st₁, T₁, ret, tracks₁⟩ := tracks.step cb reaches.1
    obtain ⟨st₂, T₂, run, tracks₂⟩ := ih tracks₁ (reaches.2 st₁ ret)
    exact ⟨st₂, T₂, .cons ret run, tracks₂⟩

/-- When every deletion's search finds its way, all calls end and the hash does what a finite map does. -/
theorem run_refines_map {hashsize : ℕ} (pos : 0 < hashsize) (ops : List (Op κ δ))
    (reaches : RunReaches cb (create hashsize, []) ops) :
    ∃ hash log, Run cb (create hashsize, []) ops (hash, log) ∧ hash.count = (present cb log).card ∧
      ∀ key, Returns (fun fuel => search cb fuel hash key) (current cb log key) ↔ SearchReaches cb hash key := by
  obtain ⟨⟨hash, log⟩, T, run, tracks⟩ := (tracks_create cb pos).run cb reaches
  refine ⟨hash, log, run, tracks.count_eq cb, fun key => ?_⟩
  rw [search_iff cb tracks.rep rfl (tracks.answers cb key)]
  have hi := cb.gethash_lt key _ tracks.rep.size_pos
  constructor
  · intro h T' rep'
    rwa [← tracks.rep.unique cb rep' hi]
  · exact fun h => h T tracks.rep

end

def natCallbacks : Callbacks ℕ ℕ where
  itemGethash := fun _ _ => 0
  itemGetkey := fun d => d
  itemCmp := fun key1 key2 => (key1 : ℤ) - key2
  gethash_lt := fun _ _ pos => pos
  cmp_neg := fun key1 key2 => by omega
  cmp_zero := fun key1 key2 => by omega

theorem eq_of_map {α β : Type} {x : Option α} {a : α} {f : α → β} {b : β} (h : x = some a)
    (e : x.map f = some b) : f a = b := by
  subst h
  exact Option.some.inj e

theorem added_three {st : Hash ℕ × List (Event ℕ ℕ)}
    (run : Run natCallbacks (create 1, []) [.add 1, .add 2, .add 3] st) :
    st.1.hashsize = 1 ∧ st.1.items 0 = some 1 ∧ st.1.heap 0 = some ⟨⟨1, none⟩, 0, some 1, none, none⟩ ∧
      st.1.heap 1 = some ⟨⟨2, none⟩, 1, none, some 0, some 2⟩ ∧
      st.1.heap 2 = some ⟨⟨3, none⟩, 0, some 1, none, none⟩ := by
  obtain ⟨N, eval⟩ := run.returns
  replace eval := eval (N + 8) (Nat.le_add_right N 8)
  have size := eq_of_map (f := fun st => st.1.hashsize) (b := 1) eval rfl
  have items := eq_of_map (f := fun st => st.1.items 0) (b := some 1) eval rfl
  exact ⟨size, items, eq_of_map (f := fun st => st.1.heap 0) eval rfl,
    eq_of_map (f := fun st => st.1.heap 1) eval rfl, eq_of_map (f := fun st => st.1.heap 2) eval rfl⟩

theorem reaches_three : RunReaches natCallbacks (create 1, []) [.add 1, .add 2, .add 3, .delete 2] := by
  refine ⟨trivial, fun _ first => ⟨trivial, fun _ second => ⟨trivial, fun st third => ⟨?_, fun _ _ => trivial⟩⟩⟩⟩
  obtain ⟨size, items, -, cell, -⟩ := added_three (.cons first (.cons second (.cons third (.nil st))))
  intro T rep
  have pos : 0 < st.1.hashsize := by omega
  have hroot := rep.items_eq natCallbacks pos
  have own := (rep.holds 0 pos).owns
  change Reaches natCallbacks 2 (T 0)
  cases hT : T 0 with
  | nil => trivial
  | node v l r =>
    rw [hT, items] at hroot
    rw [hT] at own
    have hv : v.core.1 = 1 := (Option.some.inj hroot).symm
    have core := own.1
    simp only [hv, cell, Option.some.injEq, Cell.mk.injEq] at core
    have key : keyOf natCallbacks v.core = 2 := by rw [keyOf, ← core.1]; rfl
    exact fun s hs => absurd key (hs.ne natCallbacks)

/-- Three items in one bucket, which are rotated, and the root of the bucket is deleted. -/
theorem run_refines_map_add_delete :
    ∃ hash log, Run natCallbacks (create 1, []) [.add 1, .add 2, .add 3, .delete 2] (hash, log) ∧
      hash.count = (present natCallbacks log).card ∧
      ∀ key, Returns (fun fuel => search natCallbacks fuel hash key) (current natCallbacks log key) ↔
        SearchReaches natCallbacks hash key :=
  run_refines_map natCallbacks (by decide) _ reaches_three

/-- Four items make a tree of depth two, and the search for the item below the root's child does not
end. -/
theorem search_four_never_ends :
    ∃ hash log, Run natCallbacks (create 1, []) [.add 1, .add 2, .add 3, .add 4] (hash, log) ∧
      current natCallbacks log 4 = some 4 ∧ ∀ fuel, search natCallbacks fuel hash 4 = none := by
  have reaches : RunReaches natCallbacks (create 1, []) [.add 1, .add 2, .add 3, .add 4] :=
    ⟨trivial, fun _ _ => ⟨trivial, fun _ _ => ⟨trivial, fun _ _ => ⟨trivial, fun _ _ => trivial⟩⟩⟩⟩
  obtain ⟨⟨hash, log⟩, -, run, -⟩ := (tracks_create natCallbacks Nat.one_pos).run natCallbacks reaches
  obtain ⟨N, eval⟩ := run.returns
  replace eval := eval (N + 8) (Nat.le_add_right N 8)
  have newest : current natCallbacks log 4 = some 4 :=
    eq_of_map (f := fun st => current natCallbacks st.2 4) eval rfl
  have items : hash.items 0 = some 1 := eq_of_map (f := fun st => st.1.items 0) eval rfl
  have top : hash.heap 1 = some ⟨⟨2, none⟩, 2, none, some 0, some 2⟩ :=
    eq_of_map (f := fun st => st.1.heap 1) eval rfl
  have right : hash.heap 2 = some ⟨⟨3, none⟩, 1, some 1, none, some 3⟩ :=
    eq_of_map (f := fun st => st.1.heap 2) eval rfl
  refine ⟨hash, log, run, newest, fun fuel => ?_⟩
  -- from the root the loop goes to its right child, and from there to the same child again
  have turn : ∀ n, searchItems natCallbacks hash 1 4 n (some 2) = none :=
    searchItems_stuck natCallbacks (x := (2, ⟨3, none⟩)) (s := .right) (by simp [right]) top rfl
      (.inl (by simp [Toward, keyOf, natCallbacks]))
  have stuck : searchItems natCallbacks hash 1 4 fuel (some 1) = none := by
    cases fuel with
    | zero => rfl
    | succ n =>
      rw [searchItems_toward natCallbacks (c := (1, ⟨2, none⟩)) (s := .right) (by simp [top]) top
        (by simp [Toward, keyOf, natCallbacks])]
      exact turn n
  have home : natCallbacks.itemGethash 4 hash.hashsize = 0 := rfl
  simp only [search, home, items, stuck]
  rfl

end OpenWifi.CapwapHash
