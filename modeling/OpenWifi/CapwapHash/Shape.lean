import OpenWifi.CapwapHash.Runs

/-!
# The shape of the buckets

Insertion keeps every bucket an AVL tree.  Deletion rebalances one item and does not look at the ancestors above it,
so it keeps the heights right only where that one step is enough (`RepairsLocally`).
-/

namespace OpenWifi.CapwapHash

open Option Zipper Avl LinkedTree

variable {κ δ : Type} [LinearOrder κ] (cb : Callbacks κ δ)

structure WellShaped (hash : Hash δ) (T : ℕ → ITree δ) : Prop where
  linked : ∀ i < hash.hashsize, hash.items i = root (T i) ∧ Owns hash.heap none (T i)
  searchTree : ∀ i < hash.hashsize, Sorted cb (T i)
  heights : ∀ i < hash.hashsize, ∀ p v l r, T i = plug p (.node v l r) → v.height + 1 = (BinaryTree.node v l r).height
  balances : ∀ i < hash.hashsize, ∀ p v l r, T i = plug p (.node v l r) →
    ∃ result, getBalanceItem hash.heap v.core.1 = some result ∧ -1 ≤ result ∧ result ≤ 1

theorem Rep.wellShaped {hash : Hash δ} {T : ℕ → ITree δ} (rep : Rep cb hash T)
    (avl : ∀ i < hash.hashsize, IsAvl (T i)) : WellShaped cb hash T where
  linked := fun i hi => ⟨rep.items_eq cb hi, (rep.holds i hi).owns⟩
  searchTree := rep.sorted
  heights := fun i hi p v l r hT => by
    have h := avl i hi
    rw [hT, isAvl_plug] at h
    have := h.1.ht_eq
    simp only [ht] at this
    omega
  balances := fun i hi p v l r hT => by
    have h := avl i hi
    have own := (rep.holds i hi).owns
    rw [hT, isAvl_plug] at h
    rw [hT] at own
    exact ⟨_, getBalanceItem_eq (owns_plug.1 own).2, h.1.2.1⟩

/-- Every item that the call deletes stands where one rebalancing step is enough. -/
def OpRepairs (st : Hash δ × List (Event κ δ)) : Op κ δ → Prop
  | .add _ => True
  | .delete key => RepairsLocally cb st.1 fun c => keyOf cb c = key
  | .foreach verdict => ∀ w, Returns (fun fuel => foreachBuckets verdict fuel st.1.hashsize 0
      ⟨{ st.1 with removeitems := none }, []⟩) w → RemovalsRepair cb w.hash

def RunRepairs : Hash δ × List (Event κ δ) → List (Op κ δ) → Prop
  | _, [] => True
  | st, op :: ops => OpRepairs cb st op ∧ ∀ st', Returns (fun fuel => step cb fuel st op) st' → RunRepairs st' ops

theorem Rep.step_isAvl {st st' : Hash δ × List (Event κ δ)} {T : ℕ → ITree δ} (rep : Rep cb st.1 T)
    (avl : ∀ i < st.1.hashsize, IsAvl (T i)) {op : Op κ δ} (repairs : OpRepairs cb st op)
    (ret : Returns (fun fuel => step cb fuel st op) st') :
    ∃ T', Rep cb st'.1 T' ∧ ∀ i < st'.1.hashsize, IsAvl (T' i) := by
  cases op with
  | add data =>
    obtain ⟨hash', t, done, size, rep', -, keeps⟩ := add_returns cb rep data rfl
    obtain rfl := ret.unique (done.bind (.of_forall fun _ => rfl))
    refine ⟨_, rep', (Function.forall_update_iff T fun j t => j < hash'.hashsize → IsAvl t).2 ?_⟩
    rw [size]
    exact ⟨fun hi => keeps (avl _ hi), fun j _ => avl j⟩
  | delete key =>
    rcases delete_spec cb rep key rfl with ⟨-, hash', T', done⟩ | ⟨-, stuck | done⟩
    · obtain rfl := ret.unique (done.ret.bind (.of_forall fun _ => rfl))
      refine ⟨T', done.rep, fun i hi => ?_⟩
      simp only [done.size] at hi
      exact done.avl avl repairs i hi
    · exact absurd ret (not_returns (fun n => by simp [step, stuck]) st')
    · obtain rfl := ret.unique (done.bind (.of_forall fun _ => rfl))
      exact ⟨T, rep, avl⟩
  | foreach verdict =>
    obtain ⟨hash', T', w, done, walked, size, rep', -, keeps⟩ := foreach_returns cb verdict rep
    obtain rfl := ret.unique (done.bind (.of_forall fun _ => rfl))
    refine ⟨T', rep', fun i hi => ?_⟩
    simp only [size] at hi
    exact keeps avl (repairs w walked) i hi

theorem Rep.run_isAvl {ops : List (Op κ δ)} {st st' : Hash δ × List (Event κ δ)}
    (run : Run cb st ops st') : ∀ {T : ℕ → ITree δ}, Rep cb st.1 T →
      (∀ i < st.1.hashsize, IsAvl (T i)) → RunRepairs cb st ops →
      ∃ T', Rep cb st'.1 T' ∧ ∀ i < st'.1.hashsize, IsAvl (T' i) := by
  induction run with
  | nil st => exact fun rep avl _ => ⟨_, rep, avl⟩
  | cons head _ ih =>
    intro T rep avl repairs
    obtain ⟨T₁, rep₁, avl₁⟩ := Rep.step_isAvl cb rep avl repairs.1 head
    exact ih rep₁ avl₁ (repairs.2 _ head)

/-- Every state of a run whose deletions need one rebalancing step only meets the representation
invariant. -/
theorem run_wellShaped {hashsize : ℕ} (pos : 0 < hashsize) {ops : List (Op κ δ)}
    {st : Hash δ × List (Event κ δ)} (run : Run cb (create hashsize, []) ops st)
    (repairs : RunRepairs cb (create hashsize, []) ops) : ∃ T, WellShaped cb st.1 T := by
  obtain ⟨T, rep, avl⟩ := Rep.run_isAvl cb run (rep_create cb pos) (fun _ _ => isAvl_nil) repairs
  exact ⟨T, rep.wellShaped cb avl⟩

theorem eq_leaf {m : Items δ} {par : Option Addr} {t : ITree δ} (own : Owns m par t) {a : Addr}
    (hroot : root t = some a) {c : Core δ} {h : ℤ} {q : Option Addr}
    (cell : m a = some ⟨c, h, q, none, none⟩) : t = .node ⟨(a, c), h⟩ .nil .nil := by
  cases t with
  | nil => simp at hroot
  | node v l r =>
    obtain ⟨⟨x, d⟩, k⟩ := v
    simp only [root, some.injEq] at hroot
    subst hroot
    have cv := own.1
    simp only [cell, some.injEq, Cell.mk.injEq] at cv
    obtain ⟨rfl, rfl, -, hl, hr⟩ := cv
    rw [root_eq_none.1 hl.symm, root_eq_none.1 hr.symm]

theorem run_wellShaped_add_delete :
    ∃ st, Run natCallbacks (create 1, []) [.add 1, .add 2, .add 3, .delete 2] st ∧
      ∃ T, WellShaped natCallbacks st.1 T := by
  obtain ⟨st, -, run, -⟩ := (tracks_create natCallbacks Nat.one_pos).run natCallbacks reaches_three
  refine ⟨st, run, run_wellShaped natCallbacks Nat.one_pos run ⟨trivial, fun _ first => ⟨trivial, fun _ second =>
    ⟨trivial, fun st third => ⟨?_, fun _ _ => trivial⟩⟩⟩⟩⟩
  obtain ⟨size, items, left, top, right⟩ := added_three (.cons first (.cons second (.cons third (.nil st))))
  intro T rep i hi p v l r hT key
  obtain rfl : i = 0 := by omega
  have own := (rep.holds 0 hi).owns
  have tree : T 0 = .node ⟨(1, ⟨2, none⟩), 1⟩ (.node ⟨(0, ⟨1, none⟩), 0⟩ .nil .nil)
      (.node ⟨(2, ⟨3, none⟩), 0⟩ .nil .nil) :=
    own.unique (q := none) ⟨top, ⟨left, trivial, trivial⟩, ⟨right, trivial, trivial⟩⟩
      ((rep.items_eq natCallbacks hi).symm.trans items)
  have there : v.core.1 ∈ addrs (T 0) := hT ▸ mem_addrs_plug.2 (.inl (by simp))
  rw [hT] at own
  have cell := (owns_plug.1 own).2.1
  -- the item with the key 2 is the root
  have known : v.core.1 = 0 ∨ v.core.1 = 1 ∨ v.core.1 = 2 := by simpa [tree] using there
  rcases known with at_ | at_ | at_
  all_goals
    rw [at_] at cell
    simp only [left, top, right, Option.some.injEq, Cell.mk.injEq] at cell
  · exact absurd key (by rw [keyOf, ← cell.1]; decide)
  · obtain rfl : p = [] := by
      cases p with
      | nil => rfl
      | cons f fs => cases cell.2.2.1
    rw [plug_nil, tree] at hT
    obtain ⟨rfl, rfl, rfl⟩ := BinaryTree.node.inj hT
    exact ⟨fun _ => trivial, fun _ _ => ⟨trivial, fun _ => .inr trivial⟩⟩
  · exact absurd key (by rw [keyOf, ← cell.1]; decide)

/-- Deleting the lowest item of a bucket of depth two leaves the root with height 2 though its subtrees are leaves. -/
theorem foreach_leaves_stale_height : ∃ st, Run natCallbacks (create 1, []) [.add 1, .add 2, .add 3, .add 4,
        .foreach fun _ d => if d = 4 then .hashDeleteAndContinue else .hashContinue] st ∧
      ¬ ∃ T, WellShaped natCallbacks st.1 T := by
  have reaches : RunReaches natCallbacks (create 1, []) [.add 1, .add 2, .add 3, .add 4,
      .foreach fun _ d => if d = 4 then .hashDeleteAndContinue else .hashContinue] :=
    ⟨trivial, fun _ _ =>
      ⟨trivial, fun _ _ => ⟨trivial, fun _ _ => ⟨trivial, fun _ _ => ⟨trivial, fun _ _ => trivial⟩⟩⟩⟩⟩
  obtain ⟨st, -, run, -⟩ := (tracks_create natCallbacks Nat.one_pos).run natCallbacks reaches
  obtain ⟨N, eval⟩ := run.returns
  replace eval := eval (N + 8) (Nat.le_add_right N 8)
  have size : st.1.hashsize = 1 := eq_of_map (f := fun st => st.1.hashsize) eval rfl
  have items : st.1.items 0 = some 1 := eq_of_map (f := fun st => st.1.items 0) eval rfl
  have top : st.1.heap 1 = some ⟨⟨2, none⟩, 2, none, some 0, some 2⟩ :=
    eq_of_map (f := fun st => st.1.heap 1) eval rfl
  have left : st.1.heap 0 = some ⟨⟨1, none⟩, 0, some 1, none, none⟩ :=
    eq_of_map (f := fun st => st.1.heap 0) eval rfl
  have right : st.1.heap 2 = some ⟨⟨3, none⟩, 0, some 1, none, none⟩ :=
    eq_of_map (f := fun st => st.1.heap 2) eval rfl
  refine ⟨st, run, ?_⟩
  rintro ⟨T, shaped⟩
  have pos : 0 < st.1.hashsize := by omega
  obtain ⟨hroot, own⟩ := shaped.linked 0 pos
  rw [items] at hroot
  cases hT : T 0 with
  | nil => simp [hT] at hroot
  | node v l r =>
    have height := shaped.heights 0 pos [] v l r hT
    rw [hT] at hroot own
    have hv : v.core.1 = 1 := (some.inj hroot).symm
    obtain ⟨cell, ol, or⟩ := own
    simp only [hv, top, some.injEq, Cell.mk.injEq] at cell
    obtain ⟨-, h2, -, hl, hr⟩ := cell
    rw [eq_leaf ol hl.symm left, eq_leaf or hr.symm right, ← h2] at height
    simp [BinaryTree.height] at height

end OpenWifi.CapwapHash
