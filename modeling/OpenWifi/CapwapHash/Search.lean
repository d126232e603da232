import OpenWifi.CapwapHash.Deletion

/-!
# Searching an item

The loop of `capwap_hash_search_items` compares the key with the item it is at, but steps to the children of the
root.  It therefore sees the root and the root's children only, and it does not end once it would have to go deeper
(`searchItems_spec`, `search_iff`).
-/

namespace OpenWifi.CapwapHash

open List Zipper Avl LinkedTree

variable {κ δ : Type} [LinearOrder κ] (cb : Callbacks κ δ)

/-- The search for `key` among the items of a tree answers as it should. -/
def Finds (t : ITree δ) (key : κ) : Option Addr → Prop
  | none => ∀ d ∈ datas t, cb.itemGetkey d ≠ key
  | some a => ∃ c ∈ cores t, c.1 = a ∧ keyOf cb c = key

/-- There is no child on the side of the key, or it has the key, or the key is absent, lies between that child and the
root, and there is no other child. -/
def ReachesChild (s : Side) (key : κ) : ITree δ → ITree δ → Prop
  | .nil, _ => True
  | .node x c d, other => keyOf cb x.core = key ∨
      Toward cb s.flip key x.core ∧ other = .nil ∧ ∀ e ∈ datas (.node x c d), cb.itemGetkey e ≠ key

/-- The search finds its way: the key is at the root, or the children of the root are as `ReachesChild` says. -/
def Reaches (key : κ) : ITree δ → Prop
  | .nil => True
  | .node v l r => ∀ s, Toward cb s key v.core →
      ReachesChild cb s key (child s (.node v l r)) (child s.flip (.node v l r))

variable {key : κ} {c : Addr × Core δ} {s : Side}

theorem Toward.ne (h : Toward cb s key c) : keyOf cb c ≠ key := by
  cases s
  · exact ne_of_gt h
  · exact ne_of_lt h

theorem Toward.not_flip (h : Toward cb s key c) : ¬ Toward cb s.flip key c := by
  cases s
  · exact lt_asymm h
  · exact lt_asymm h

theorem eq_or_toward (key : κ) (c : Addr × Core δ) (s : Side) :
    keyOf cb c = key ∨ Toward cb s key c ∨ Toward cb s.flip key c := by
  cases s <;> rcases lt_trichotomy key (keyOf cb c) with h | h | h <;>
    simp only [Toward, Side.flip_left, Side.flip_right] <;> tauto

theorem Toward.far {c d : Addr × Core δ} (h : Toward cb s key c)
    (h' : Toward cb s.flip (keyOf cb d) c) : Toward cb s key d := by
  cases s
  · exact lt_trans h h'
  · exact lt_trans h' h

theorem searchItems_none (hash : Hash δ) (item : Addr) (key : κ) (fuel : ℕ) :
    searchItems cb hash item key fuel none = some none := by
  cases fuel <;> rfl

variable {hash : Hash δ} {item : Addr}

theorem searchItems_found (core : (hash.heap c.1).map Cell.core = some c.2) (found : keyOf cb c = key) :
    Returns (fun fuel => searchItems cb hash item key fuel (some c.1)) (some c.1) := by
  obtain ⟨it, cell, hc⟩ := Option.map_eq_some_iff.1 core
  have zero : cb.itemCmp key (cb.itemGetkey c.2.data) = 0 := (cb.cmp_zero _ _).2 found.symm
  refine .step (.of_forall fun _ => rfl) fun n => ?_
  simp [searchItems, cell, hc, zero]

theorem searchItems_toward {top : Cell (Core δ)} (core : (hash.heap c.1).map Cell.core = some c.2)
    (root : hash.heap item = some top) (side : Toward cb s key c) (fuel : ℕ) :
    searchItems cb hash item key (fuel + 1) (some c.1) = searchItems cb hash item key fuel (top.child s) := by
  obtain ⟨it, cell, hc⟩ := Option.map_eq_some_iff.1 core
  have ne : cb.itemCmp key (cb.itemGetkey c.2.data) ≠ 0 := fun h => side.ne cb ((cb.cmp_zero _ _).1 h).symm
  cases s
  · have neg : cb.itemCmp key (cb.itemGetkey c.2.data) < 0 := (cb.cmp_neg _ _).2 side
    simp [searchItems, cell, hc, ne, neg, root, Cell.child]
  · have neg : ¬ cb.itemCmp key (cb.itemGetkey c.2.data) < 0 := fun h => lt_asymm (α := κ) side ((cb.cmp_neg _ _).1 h)
    simp [searchItems, cell, hc, ne, neg, root, Cell.child]

theorem searchItems_stuck {x : Addr × Core δ} {top : Cell (Core δ)} (core : (hash.heap x.1).map Cell.core = some x.2)
    (root : hash.heap item = some top) (link : top.child s = some x.1)
    (back : Toward cb s key x ∨ Toward cb s.flip key x ∧ ∃ y : Addr × Core δ,
      (hash.heap y.1).map Cell.core = some y.2 ∧ top.child s.flip = some y.1 ∧ Toward cb s key y)
    (fuel : ℕ) : searchItems cb hash item key fuel (some x.1) = none := by
  induction fuel using Nat.strong_induction_on with
  | _ fuel ih =>
    cases fuel with
    | zero => rfl
    | succ n =>
      rcases back with side | ⟨side, y, ycore, ylink, yside⟩
      · rw [searchItems_toward cb core root side, link]
        exact ih n (Nat.lt_succ_self n)
      · rw [searchItems_toward cb core root side, ylink]
        cases n with
        | zero => rfl
        | succ n =>
          rw [searchItems_toward cb ycore root yside, link]
          exact ih n (by omega)

/-! ## What the search answers -/

/-- The loop ends with the right answer for the trees of `Reaches`.  For the other trees it runs on, or
it ends with `NULL` though the key is there. -/
theorem searchItems_spec {t : ITree δ} (key : κ)
    (own : Owns hash.heap none t) (sorted : Sorted cb t) (hroot : root t = some item) :
    (Reaches cb key t ∧ ∃ r, Returns (fun fuel => searchItems cb hash item key fuel (some item)) r ∧ Finds cb t key r) ∨
      ¬ Reaches cb key t ∧ ((∀ n, searchItems cb hash item key n (some item) = none) ∨
        Returns (fun fuel => searchItems cb hash item key fuel (some item)) none ∧ ¬ Finds cb t key none) := by
  cases t with
  | nil => simp at hroot
  | node v l r =>
    simp only [root, Option.some.injEq] at hroot
    subst hroot
    have core : ∀ c ∈ cores (.node v l r), (hash.heap c.1).map Cell.core = some c.2 := fun c hc => own.core_eq hc
    have hv : v.core ∈ cores (.node v l r) := by simp
    rcases eq_or_toward cb key v.core .left with found | side
    · -- the root has the key
      exact .inl ⟨fun s hs => absurd found (hs.ne cb), _, searchItems_found cb (core _ hv) found,
        v.core, hv, rfl, found⟩
    obtain ⟨s, side⟩ : ∃ s, Toward cb s key v.core := by
      rcases side with h | h
      exacts [⟨_, h⟩, ⟨_, h⟩]
    have reaches : Reaches cb key (.node v l r) ↔
        ReachesChild cb s key (child s (.node v l r)) (child s.flip (.node v l r)) := by
      refine ⟨fun h => h s side, fun h s' hs' => ?_⟩
      rcases Side.eq_or_eq_flip s s' with rfl | rfl
      · exact h
      · exact absurd hs' (side.not_flip cb)
    rw [reaches]
    rw [← join_child s v l r] at own sorted core hv ⊢
    rw [child_join, child_flip_join]
    generalize child s (.node v l r) = a at *
    generalize child s.flip (.node v l r) = b at *
    obtain ⟨cell, oa, ob⟩ := owns_join.1 own
    obtain ⟨near, far⟩ := sorted.toward cb
    have first := searchItems_toward cb (core _ hv) cell side
    rw [Cell.ofSides_child] at first
    -- on the other side of the root there is no item with the key
    have absent : (∀ e ∈ datas a, cb.itemGetkey e ≠ key) → ∀ e ∈ datas (join s v a b), cb.itemGetkey e ≠ key := by
      intro h e he
      obtain ⟨c, hc, rfl⟩ := mem_map.1 he
      rcases mem_cores_join.1 hc with rfl | hc | hc
      · exact side.ne cb
      · exact h _ (mem_map_of_mem hc)
      · intro e'
        have hfar := far c hc
        rw [keyOf, e'] at hfar
        exact side.not_flip cb hfar
    have start : ∀ r, Returns (fun fuel => searchItems cb hash v.core.1 key fuel (root a)) r →
        Returns (fun fuel => searchItems cb hash v.core.1 key fuel (some v.core.1)) r :=
      fun r ret => ret.step first
    cases a with
    | nil =>
      refine .inl ⟨trivial, none, start none ?_, absent (by simp)⟩
      exact .of_forall fun n => searchItems_none cb _ _ _ n
    | node x c d =>
      have hx : x.core ∈ cores (join s v (.node x c d) b) := mem_cores_join.2 (.inr (.inl (by simp)))
      have never : (∀ n, searchItems cb hash v.core.1 key n (some x.core.1) = none) →
          ∀ n, searchItems cb hash v.core.1 key n (some v.core.1) = none := by
        intro stuck n
        cases n with
        | zero => rfl
        | succ n => rw [first]; exact stuck n
      rcases eq_or_toward cb key x.core s with found | toward | beyond
      · exact .inl ⟨.inl found, some x.core.1, start _ (searchItems_found cb (core _ hx) found), x.core, hx, rfl, found⟩
      · -- the loop steps from the child to the child again
        refine .inr ⟨?_, .inl (never (searchItems_stuck cb (core _ hx) cell ?_ (.inl toward)))⟩
        · rintro (found | ⟨beyond, -⟩)
          · exact toward.ne cb found
          · exact toward.not_flip cb beyond
        · rw [Cell.ofSides_child]; rfl
      · have second := searchItems_toward cb (core _ hx) cell beyond
        rw [Cell.ofSides_child_flip] at second
        cases b with
        | nil =>
          have ret : Returns (fun fuel => searchItems cb hash v.core.1 key fuel (some v.core.1)) none :=
            start none (Returns.step (.of_forall fun n => searchItems_none cb _ _ _ n) second)
          by_cases miss : ∀ e ∈ datas (.node x c d), cb.itemGetkey e ≠ key
          · exact .inl ⟨.inr ⟨beyond, rfl, miss⟩, none, ret, absent miss⟩
          · refine .inr ⟨?_, .inr ⟨ret, fun finds => miss fun e he => finds e ?_⟩⟩
            · rintro (found | ⟨-, -, h⟩)
              · exact beyond.ne cb found
              · exact miss h
            · obtain ⟨c', hc', rfl⟩ := mem_map.1 he
              exact mem_map_of_mem (mem_cores_join.2 (.inr (.inl hc')))
        | node y c' d' =>
          -- the loop steps to and fro between the two children
          have hy : y.core ∈ cores (join s v (.node x c d) (.node y c' d')) :=
            mem_cores_join.2 (.inr (.inr (by simp)))
          have yside := side.far cb (far y.core (by simp))
          refine .inr ⟨?_, .inl (never (searchItems_stuck cb (core _ hx) cell ?_
            (.inr ⟨beyond, y.core, core _ hy, ?_, yside⟩)))⟩
          · rintro (found | ⟨-, none, -⟩)
            · exact beyond.ne cb found
            · exact absurd none (by simp)
          · rw [Cell.ofSides_child]; rfl
          · rw [Cell.ofSides_child_flip]; rfl

def Answers (hashsize : ℕ) (T : ℕ → ITree δ) (key : κ) (answer : Option δ) : Prop :=
  ∀ d, answer = some d ↔ Stored hashsize T d ∧ cb.itemGetkey d = key

variable {T : ℕ → ITree δ} {i : ℕ}

theorem Rep.mem_home (rep : Rep cb hash T) (home : cb.itemGethash key hash.hashsize = i) (d : δ) :
    Stored hash.hashsize T d ∧ cb.itemGetkey d = key ↔ d ∈ datas (T i) ∧ cb.itemGetkey d = key := by
  constructor
  · rintro ⟨⟨j, hj, hd⟩, rfl⟩
    rw [← home, rep.placed j hj d hd]
    exact ⟨hd, rfl⟩
  · rintro ⟨hd, e⟩
    exact ⟨⟨i, home ▸ cb.gethash_lt _ _ rep.size_pos, hd⟩, e⟩

theorem search_iff (rep : Rep cb hash T) (home : cb.itemGethash key hash.hashsize = i) {answer : Option δ}
    (right : Answers cb hash.hashsize T key answer) :
    Returns (fun fuel => search cb fuel hash key) answer ↔ Reaches cb key (T i) := by
  have hi : i < hash.hashsize := home ▸ cb.gethash_lt _ _ rep.size_pos
  have items := rep.items_eq cb hi
  have right' : ∀ d, answer = some d ↔ d ∈ datas (T i) ∧ cb.itemGetkey d = key := fun d =>
    (right d).trans (rep.mem_home cb home d)
  cases hroot : root (T i) with
  | none =>
    have empty := root_eq_none.1 hroot
    rw [empty] at right' ⊢
    obtain rfl : answer = none := Option.eq_none_iff_forall_ne_some.2 fun d e => by
      simpa using (right' d).1 e
    refine iff_of_true (.of_forall fun n => ?_) trivial
    simp [search, home, items, hroot]
  | some item =>
    have eq : ∀ fuel, search cb fuel hash key =
        (searchItems cb hash item key fuel (some item)).bind fun r => match r with
          | none => some none
          | some result => (hash.heap result).bind fun it => some (some it.core.data) := by
      intro fuel
      simp only [search, home, items, hroot]
      rfl
    rcases searchItems_spec cb key (rep.holds i hi).owns (rep.sorted i hi) hroot with
      ⟨reaches, r, ret, finds⟩ | ⟨not, bad⟩
    · refine iff_of_true ?_ reaches
      simp only [eq]
      refine ret.bind (.of_forall fun _ => ?_)
      cases r with
      | none =>
        obtain rfl : answer = none := Option.eq_none_iff_forall_ne_some.2 fun d e =>
          finds d ((right' d).1 e).1 ((right' d).1 e).2
        rfl
      | some a =>
        obtain ⟨c, hc, rfl, hk⟩ := finds
        have core := rep.core_eq cb hi hc
        rw [(right' c.2.data).2 ⟨mem_map_of_mem hc, hk⟩]
        obtain ⟨it, cell, hit⟩ := Option.map_eq_some_iff.1 core
        simp [cell, hit]
    · refine iff_of_false ?_ not
      simp only [eq]
      rcases bad with stuck | ⟨ret, wrong⟩
      · exact not_returns (fun n => by rw [stuck]; rfl) _
      · -- the loop answered `NULL`, but the key has an entry
        intro ret'
        obtain rfl := ret'.unique (ret.bind (.of_forall fun _ => rfl))
        exact wrong fun d hd hk => by simpa using (right' d).2 ⟨hd, hk⟩

theorem delete_eq (home : cb.itemGethash key hash.hashsize = i) (items : hash.items i = some item) (fuel : ℕ) :
    delete cb fuel hash key = (searchItems cb hash item key fuel (some item)).bind fun r => match r with
        | none => some hash
        | some search => deleteItem fuel hash search i := by
  simp only [delete, home, items]
  rfl

/-- `capwap_hash_delete` ends and drops the entry of the key.  It keeps AVL trees if the item stands where that takes
one rebalancing step. -/
structure Deletes (hash : Hash δ) (T : ℕ → ITree δ) (key : κ) (hash' : Hash δ) (T' : ℕ → ITree δ) : Prop where
  ret : Returns (fun fuel => delete cb fuel hash key) hash'
  size : hash'.hashsize = hash.hashsize
  rep : Rep cb hash' T'
  stored : ∀ d, Stored hash.hashsize T' d ↔ Stored hash.hashsize T d ∧ cb.itemGetkey d ≠ key
  avl : (∀ i < hash.hashsize, IsAvl (T i)) → RepairsLocally cb hash (fun c => keyOf cb c = key) →
    ∀ i < hash.hashsize, IsAvl (T' i)

theorem deletes_absent (rep : Rep cb hash T)
    (home : cb.itemGethash key hash.hashsize = i) (absent : ∀ d ∈ datas (T i), cb.itemGetkey d ≠ key)
    (ret : Returns (fun fuel => delete cb fuel hash key) hash) : Deletes cb hash T key hash T := by
  refine ⟨ret, rfl, rep, fun d => ?_, fun avl _ => avl⟩
  constructor
  · intro hd
    refine ⟨hd, fun e => ?_⟩
    obtain ⟨hd', e'⟩ := (rep.mem_home cb home d).1 ⟨hd, e⟩
    exact absent d hd' e'
  · exact fun h => h.1

/-- `capwap_hash_delete` does its work for the trees of `Reaches`.  For the others it does not end, or
it leaves the hash as it is. -/
theorem delete_spec (rep : Rep cb hash T) (key : κ) (home : cb.itemGethash key hash.hashsize = i) :
    (Reaches cb key (T i) ∧ ∃ hash' T', Deletes cb hash T key hash' T') ∨
      ¬ Reaches cb key (T i) ∧ ((∀ n, delete cb n hash key = none) ∨
        Returns (fun fuel => delete cb fuel hash key) hash) := by
  have hi : i < hash.hashsize := home ▸ cb.gethash_lt _ _ rep.size_pos
  have items := rep.items_eq cb hi
  cases hroot : root (T i) with
  | none =>
    have empty := root_eq_none.1 hroot
    refine .inl ⟨by rw [empty]; trivial, hash, T, ?_⟩
    refine deletes_absent cb rep home (by simp [empty]) (.of_forall fun n => ?_)
    simp [delete, home, items, hroot]
  | some item =>
    have eq := delete_eq cb home (items.trans hroot)
    rcases searchItems_spec cb key (rep.holds i hi).owns (rep.sorted i hi) hroot with
      ⟨reaches, r, ret, finds⟩ | ⟨not, stuck | ⟨ret, -⟩⟩
    · refine .inl ⟨reaches, ?_⟩
      cases r with
      | none =>
        refine ⟨hash, T, deletes_absent cb rep home finds ?_⟩
        simp only [eq]
        exact ret.bind (.of_forall fun _ => rfl)
      | some a =>
        obtain ⟨c, hc, rfl, hk⟩ := finds
        obtain ⟨v, hv, rfl⟩ := mem_map.1 hc
        obtain ⟨p, l, r, hT⟩ := exists_plug_of_mem hv
        obtain ⟨hash', t, done, size, -, rep', removed, entries⟩ := deleteItem_returns cb rep hi hT
        rw [hk] at entries
        refine ⟨hash', _, ?_, size, rep', fun d => ?_, fun avl repairs => ?_⟩
        · simp only [eq]
          exact ret.bind done
        · rw [rep.stored_splice cb home entries]
          simp
        · refine (Function.forall_update_iff T fun j t => j < hash.hashsize → IsAvl t).2
            ⟨fun hi => ?_, fun j _ => avl j⟩
          exact (removed.isAvl_iff (hT ▸ avl i hi)).2 (repairs T rep i hi p v l r hT hk)
    · exact .inr ⟨not, .inl fun n => by rw [eq, stuck]; rfl⟩
    · refine .inr ⟨not, .inr ?_⟩
      simp only [eq]
      exact ret.bind (.of_forall fun _ => rfl)

end OpenWifi.CapwapHash
