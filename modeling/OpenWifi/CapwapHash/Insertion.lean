import OpenWifi.CapwapHash.Table

/-!
# Inserting an item

The rebalancing loop of `capwap_hash_add` follows a climb from the new item to the root (`rebalance_returns`).
-/

namespace OpenWifi.CapwapHash

open Option Zipper Avl LinkedTree
open Function (update update_of_ne update_self)

variable {κ δ : Type}

/-! ## The rebalancing loop -/

variable {p : IPath δ} {t : ITree δ}

theorem updateHeight_holds {b : Bucket δ} {x : Addr} (h : Holds b (plug p t)) (hx : root t = some x) :
    ∃ m, updateHeight b.heap x = some m ∧ Holds ⟨m, b.root⟩ (plug p (refresh t)) ∧
      Untouched (addrs (plug p t)) b.heap m := by
  rcases eq_nil_or_join .left t with rfl | ⟨v, l, r, rfl⟩
  · simp at hx
  rw [root_join, some.injEq] at hx
  subst hx
  obtain ⟨cell, ol, or⟩ := owns_join.1 (owns_plug.1 h.owns).2
  obtain ⟨-, nl, nr⟩ := nonneg_join.1 (nonneg_plug.1 h.nonneg).2
  refine ⟨_, updateHeight_eq cell ol or nl nr, ?_, fun a ha => ?_⟩
  · rw [refresh_join, mk]
    have := nl.ht_ge
    exact setCell_holds h v.core.2 (by omega)
  · refine update_of_ne ?_ ..
    rintro rfl
    exact ha (mem_addrs_plug.2 (.inl (mem_addrs_join.2 (.inl rfl))))

theorem lift_parent {m : Items δ} {par : Option Addr} {s : Side} {x : Addr}
    (form : HeavyForm s t) (hx : root t = some x) (o : Owns m par (lift s t)) :
    ∃ it, m x = some it ∧ it.parent = root (lift s t) := by
  cases form with
  | single v w a c d low _ =>
    rw [root_join, some.injEq] at hx
    subst hx
    rw [lift_single low] at o ⊢
    obtain ⟨-, -, ox⟩ := owns_join.1 o
    exact ⟨_, (owns_join.1 ox).1, by simp⟩
  | double v w z a c c' d high _ =>
    rw [root_join, some.injEq] at hx
    subst hx
    rw [lift_double high] at o ⊢
    obtain ⟨-, -, ox⟩ := owns_join.1 o
    exact ⟨_, (owns_join.1 ox).1, by simp⟩

theorem root_refresh (t : ITree δ) : root (refresh t) = root t := by
  cases t with
  | nil => rfl
  | node v l r => exact root_mk _ _ _ _

theorem rebalance_none (b : Bucket δ) (fuel : ℕ) : rebalance b fuel none = some b := by
  cases fuel <;> rfl

theorem rebalance_returns {t T : ITree δ} (climb : Climb p t T) :
    ∀ {b : Bucket δ}, Holds b (plug p t) → ∃ b', Returns (fun fuel => rebalance b fuel (root t)) b' ∧ Holds b' T ∧
        Untouched (addrs (plug p t)) b.heap b'.heap := by
  induction climb with
  | @turn p t T s heavy _ ih =>
    intro b h
    have ne : t ≠ .nil := by
      rintro rfl
      simp [refresh, lean] at heavy
    obtain ⟨x, hx⟩ := exists_root ne
    obtain ⟨m, h₁, hold₁, off₁⟩ := updateHeight_holds h hx
    have hx' : root (refresh t) = some x := (root_refresh t).trans hx
    obtain ⟨b₂, h₂, hold₂, off₂⟩ := balanceTree_heavy hold₁ hx' heavy
    have form := heavyForm (nonneg_plug.1 hold₁.nonneg).2 heavy
    obtain ⟨it, cell, up⟩ := lift_parent form hx' (owns_plug.1 hold₂.owns).2
    obtain ⟨b₃, ret, hold₃, off₃⟩ := ih hold₂
    refine ⟨b₃, ?_, hold₃, ?_⟩
    · refine ret.step fun n => ?_
      rw [hx, rebalance]
      simp [h₁, h₂, cell, up]
    · have e₁ : addrs (plug p (refresh t)) = addrs (plug p t) :=
        congrArg (List.map Prod.fst) (cores_plug_congr (cores_refresh t) p)
      have e₂ : addrs (plug (refreshTop (lift s (refresh t)) p) (lift s (refresh t))) = addrs (plug p t) := by
        rw [← e₁]
        refine congrArg (List.map Prod.fst) ((cores_refreshTop _ _ _).trans ?_)
        exact cores_plug_congr (cores_lift form) p
      rw [e₁] at off₂
      rw [e₂] at off₃
      exact off₁.trans (off₂.trans off₃)
  | @up f fs t T ne level _ ih =>
    intro b h
    obtain ⟨x, hx⟩ := exists_root ne
    obtain ⟨m, h₁, hold₁, off₁⟩ := updateHeight_holds h hx
    have hx' : root (refresh t) = some x := (root_refresh t).trans hx
    have h₂ := balanceTree_balanced hold₁ hx' level
    obtain ⟨b₃, ret, hold₃, off₃⟩ := ih hold₁
    obtain ⟨it, cell, up⟩ := (owns_plug.1 hold₁.owns).2.root_parent hx'
    refine ⟨b₃, ?_, hold₃, ?_⟩
    · refine ret.step fun n => ?_
      rw [hx, rebalance, Frame.fill, root_join]
      simp only at cell
      simp [h₁, h₂, cell, up, above, faddr]
    · have e₁ : addrs (plug (f :: fs) (refresh t)) = addrs (plug (f :: fs) t) :=
        congrArg (List.map Prod.fst) (cores_plug_congr (cores_refresh t) (f :: fs))
      rw [plug_cons, plug_cons] at e₁
      rw [e₁] at off₃
      exact off₁.trans off₃
  | @top t ne level =>
    intro b h
    obtain ⟨x, hx⟩ := exists_root ne
    obtain ⟨m, h₁, hold₁, off₁⟩ := updateHeight_holds (p := []) h hx
    have hx' : root (refresh t) = some x := (root_refresh t).trans hx
    have h₂ := balanceTree_balanced hold₁ hx' level
    refine ⟨⟨m, b.root⟩, ?_, hold₁, off₁⟩
    refine .step (.of_forall fun n => rebalance_none ⟨m, b.root⟩ n) fun n => ?_
    obtain ⟨it, cell, up⟩ := (owns_plug.1 hold₁.owns).2.root_parent hx'
    simp only at cell
    simp [hx, rebalance, h₁, h₂, cell, up, above]

section

variable [LinearOrder κ] (cb : Callbacks κ δ)

theorem toward_of_cmp {key : κ} {c : Addr × Core δ} (ne : cb.itemCmp key (keyOf cb c) ≠ 0) :
    ∃ s, Toward cb s key c := by
  have hne : key ≠ keyOf cb c := fun e => ne ((cb.cmp_zero _ _).2 e)
  rcases lt_or_gt_of_ne hne with lt | gt
  · exact ⟨.left, lt⟩
  · exact ⟨.right, gt⟩

theorem addLoop_toward {key : κ} (data : δ) {hash : Hash δ} {s : Side} {v : Label (Addr × Core δ)}
    {par a b : Option Addr} (cell : hash.heap v.core.1 = some (.ofSides s v.core.2 v.height par a b))
    (side : Toward cb s key v.core) (fuel : ℕ) : addLoop cb key data hash (fuel + 1) v.core.1 =
      a.elim (addBelow hash v.core.1 s data) (addLoop cb key data hash fuel) := by
  cases s
  · have neg : cb.itemCmp key (cb.itemGetkey v.core.2.data) < 0 := (cb.cmp_neg _ _).2 side
    simp only [addLoop, cell, Cell.ofSides, bind_eq_bind, bind_some, if_pos neg, if_neg (ne_of_lt neg)]
    cases a <;> rfl
  · have lt : keyOf cb v.core < key := side
    have neg : ¬ cb.itemCmp key (cb.itemGetkey v.core.2.data) < 0 := fun h => lt_asymm lt ((cb.cmp_neg _ _).1 h)
    have ne : cb.itemCmp key (cb.itemGetkey v.core.2.data) ≠ 0 := fun h => ne_of_gt lt ((cb.cmp_zero _ _).1 h)
    simp only [addLoop, cell, Cell.ofSides, bind_eq_bind, bind_some, if_neg neg, if_neg ne]
    cases a <;> rfl

theorem addLoop_returns {key : κ} (data : δ) {hash : Hash δ} :
    ∀ {p : IPath δ} {x : Addr}, Owns hash.heap none (plug p t) → Sorted cb (plug p t) →
      Between cb p key → root t = some x → (∃ (q : IPath δ) (v : Label (Addr × Core δ)) (l r : ITree δ),
        plug p t = plug q (.node v l r) ∧ keyOf cb v.core = key ∧ Returns (fun fuel => addLoop cb key data hash fuel x)
          ({ hash with
              heap := update hash.heap v.core.1
                (some ⟨⟨data, v.core.2.removenext⟩, v.height, above q, root l, root r⟩) }, none)) ∨
      ∃ (f : Frame (Label (Addr × Core δ))) (q : IPath δ), plug p t = plug (f :: q) .nil ∧ Between cb (f :: q) key ∧
        ∀ r, addBelow hash (faddr f) f.side data = some r →
          Returns (fun fuel => addLoop cb key data hash fuel x) r := by
  induction t using side_induction with
  | nil => simp
  | node v l r ih =>
    intro p x o sorted between hx
    simp only [root, some.injEq] at hx
    subst hx
    have cell := (owns_plug.1 o).2.1
    by_cases hz : cb.itemCmp key (keyOf cb v.core) = 0
    · refine .inl ⟨p, v, l, r, rfl, ((cb.cmp_zero _ _).1 hz).symm, .step (.of_forall fun _ => rfl) fun n => ?_⟩
      rw [keyOf] at hz
      simp only [addLoop, cell, bind_eq_bind, bind_some, if_pos hz]
      rfl
    obtain ⟨s, side⟩ := toward_of_cmp cb hz
    replace ih := @ih s
    rw [← join_child s v l r] at o sorted ⊢
    generalize child s (.node v l r) = t at *
    generalize child s.flip (.node v l r) = u at *
    have turn := addLoop_toward cb data (owns_join.1 (owns_plug.1 o).2).1 side
    have deeper := between.cons cb (sorted_plug cb sorted) side
    cases ht : root t with
    | none =>
      -- no child on the side of the key: the new item goes there
      rw [ht] at turn
      obtain rfl := root_eq_none.1 ht
      refine .inr ⟨⟨v, s, u⟩, p, rfl, deeper, fun r hr => ?_⟩
      exact (Returns.of_forall fun _ => hr).step turn
    | some y =>
      rw [ht] at turn
      rcases ih (p := ⟨v, s, u⟩ :: p) o sorted deeper ht with ⟨q, w, a, b, he, hk, ret⟩ | ⟨f, q, he, hb, ret⟩
      · exact .inl ⟨q, w, a, b, he, hk, ret.step turn⟩
      · exact .inr ⟨f, q, he, hb, fun r hr => (ret r hr).step turn⟩

end

/-! ## The whole insertion -/

def leaf (a : Addr) (data : δ) : ITree δ := .node ⟨(a, ⟨data, none⟩), 0⟩ .nil .nil

theorem createItem_owns (hash : Hash δ) (data : δ) : Owns (createItem hash data).1.heap none (leaf hash.fresh data) :=
  ⟨update_self _ _ _, trivial, trivial⟩

theorem addBelow_holds {hash : Hash δ} (data : δ) {r : Option Addr} {f : Frame (Label (Addr × Core δ))}
    (h : Holds ⟨hash.heap, r⟩ (plug (f :: p) .nil)) (old : ∀ a ∈ addrs (plug (f :: p) .nil), a < hash.fresh) :
    ∃ m, addBelow hash (faddr f) f.side data =
        some ({ hash with heap := m, fresh := hash.fresh + 1, count := hash.count + 1 }, some hash.fresh) ∧
      Holds ⟨m, r⟩ (plug (refreshTop (leaf hash.fresh data) (f :: p)) (leaf hash.fresh data)) ∧
      ∀ a, a ∉ addrs (plug (f :: p) .nil) → a < hash.fresh → m a = hash.heap a := by
  have fresh : hash.fresh ∉ addrs (plug (f :: p) .nil) := fun hm => lt_irrefl _ (old _ hm)
  obtain ⟨op, -⟩ := owns_plug.1 h.owns
  obtain ⟨-, dp, -⟩ := nodup_addrs_plug.1 h.nodup
  obtain ⟨np, -⟩ := nonneg_plug.1 h.nonneg
  have hin : ∀ a, a ∈ addrs (leaf hash.fresh data) ↔ a = hash.fresh := by
    intro a
    simp [leaf, addrs]
  have around_old : hash.fresh ∉ around (f :: p) := fun hm => fresh (mem_addrs_plug.2 (.inr hm))
  -- the memory after `capwap_hash_create_item`
  have off₁ : ∀ a, a ≠ hash.fresh → (createItem hash data).1.heap a = hash.heap a := fun a ha => update_of_ne ha _ _
  have op₁ : OwnsPath (createItem hash data).1.heap (f :: p) none := by
    apply op.frame
    intro a ha
    exact off₁ a (ne_of_mem_of_not_mem ha around_old)
  have nodup : (addrs (plug (f :: p) (leaf hash.fresh data))).Nodup := by
    refine nodup_addrs_plug.2 ⟨by simp [leaf, addrs], dp, fun a ha hp => ?_⟩
    rw [hin] at ha
    exact around_old (ha ▸ hp)
  have nonneg : Nonneg (plug (f :: p) (leaf hash.fresh data)) := by
    refine nonneg_plug.2 ⟨np, ?_⟩
    simp [leaf, Nonneg]
  obtain ⟨b, hb, hold, off⟩ := attach_holds (r := r) op₁ (createItem_owns hash data) nodup nonneg
    (s := f.side) (by simp) (by
      intro g gs e
      exact h.root_eq.trans (root_plug_cons f p _ _))
  simp only [attach, above] at hb
  obtain ⟨m, hm, hb⟩ := bind_eq_some_iff.1 hb
  cases hb
  refine ⟨m, ?_, hold, fun a ha hlt => ?_⟩
  · have hm' : setItem f.side (createItem { hash with count := hash.count + 1 } data).1.heap
        (faddr f) (some hash.fresh) = some m := hm
    simp only [addBelow, createItem] at hm' ⊢
    simp only [hm', bind_eq_bind, bind_some]
    rfl
  · have hne : a ≠ hash.fresh := ne_of_lt hlt
    have hp : a ∉ around (f :: p) := fun hp => ha (mem_addrs_plug.2 (.inr hp))
    refine (off a ?_).trans (off₁ a hne)
    rw [mem_addrs_plug, hin]
    tauto

section

variable [LinearOrder κ] (cb : Callbacks κ δ) {data : δ}

theorem add_of_loop {hash : Hash δ} {i : ℕ} {top : Addr} {r : Hash δ × Option Addr} {b : Bucket δ}
    (hi : cb.itemGethash (cb.itemGetkey data) hash.hashsize = i) (htop : hash.items i = some top)
    (loop : Returns (fun fuel => addLoop cb (cb.itemGetkey data) data hash fuel top) r)
    (climb : Returns (fun fuel => rebalance ⟨r.1.heap, r.1.items i⟩ fuel r.2) b) :
    Returns (fun fuel => add cb fuel hash data) { r.1 with heap := b.heap, items := update r.1.items i b.root } := by
  simp only [add, hi, htop]
  exact loop.bind (climb.bind (.of_forall fun _ => rfl))

theorem splice_replace {v : Label (Addr × Core δ)} {l r : ITree δ}
    (next : Option Addr) (h : ℤ) (sorted : Sorted cb (plug p (.node v l r)))
    (same : keyOf cb v.core = cb.itemGetkey data) :
    Splice cb (cb.itemGetkey data) (some data) (datas (plug p (.node v l r)))
      (datas (plug p (.node ⟨(v.core.1, ⟨data, next⟩), h⟩ l r))) := by
  have entries := splice_node cb sorted fun d (hd : d ∈ some data) => by
    rw [same, mem_some.1 hd]
  rw [same] at entries
  have new : datas (plug p (.node ⟨(v.core.1, ⟨data, next⟩), h⟩ l r)) =
      ((before p).map (fun v => v.core.2.data) ++ datas l) ++ (some data).toList ++
        (datas r ++ (after p).map fun v => v.core.2.data) := by
    simp [datas_plug]
  rw [new]
  exact entries

theorem splice_insert {a : Addr} (between : Between cb p (cb.itemGetkey data)) {T : ITree δ}
    (hT : cores T = cores (plug p (leaf a data))) :
    Splice cb (cb.itemGetkey data) (some data) (datas (plug p .nil)) (datas T) := by
  refine ⟨(before p).map (fun v => v.core.2.data), [], (after p).map (fun v => v.core.2.data),
    ?_, ?_, ?_, ?_, by simp, by simp⟩
  · rw [datas_plug]; rfl
  · rw [datas, hT]
    exact datas_plug p (leaf a data)
  · simpa using! between.1
  · simpa using! between.2

theorem add_empty {hash : Hash δ} {T : ℕ → ITree δ} (rep : Rep cb hash T) {i : ℕ}
    (hi : cb.itemGethash (cb.itemGetkey data) hash.hashsize = i) (hlt : i < hash.hashsize) (empty : T i = .nil) :
    ∃ hash', Returns (fun fuel => add cb fuel hash data) hash' ∧ hash'.hashsize = hash.hashsize ∧
      Rep cb hash' (update T i (leaf hash.fresh data)) := by
  have slot : hash.items i = none := by
    rw [rep.items_eq cb hlt, empty]
    rfl
  refine ⟨{ (createItem { hash with count := hash.count + 1 } data).1 with
    items := update hash.items i (some hash.fresh) }, .of_forall fun n => ?_, rfl, ?_⟩
  · simp only [add, hi, slot]
    rfl
  have entries : Splice cb (cb.itemGetkey data) (some data) (datas (T i))
      (datas (leaf hash.fresh data)) := by
    rw [empty]
    exact splice_insert cb (p := []) ⟨by simp [before], by simp [after]⟩ rfl
  refine rep.splice cb hlt (b := ⟨(createItem hash data).1.heap, some hash.fresh⟩)
    ⟨rfl, createItem_owns hash data, by simp [leaf, addrs], by simp [leaf, Nonneg]⟩ ?_ ?_
    rfl rfl rfl (Nat.le_succ _) ?_ hi entries
  · intro a ha
    simp only [leaf, addrs, cores_node, cores_nil, List.nil_append, List.map_cons, List.map_nil,
      List.mem_singleton] at ha
    subst ha
    exact .inr ⟨le_rfl, Nat.lt_succ_self _⟩
  · intro a _ ha
    exact update_of_ne (ne_of_lt ha) _ _
  · rw [empty]
    simp [leaf, datas, createItem]

theorem isAvl_leaf (a : Addr) (data : δ) : IsAvl (leaf a data) := by
  simp [leaf, IsAvl]

/-- `capwap_hash_add` ends.  It replaces the entry of the key, keeps the order of the keys, and keeps
the bucket an AVL tree if it was one. -/
theorem add_returns {hash : Hash δ} {T : ℕ → ITree δ} (rep : Rep cb hash T) (data : δ) {i : ℕ}
    (hi : cb.itemGethash (cb.itemGetkey data) hash.hashsize = i) :
    ∃ hash' t, Returns (fun fuel => add cb fuel hash data) hash' ∧
      hash'.hashsize = hash.hashsize ∧ Rep cb hash' (update T i t) ∧
      Splice cb (cb.itemGetkey data) (some data) (datas (T i)) (datas t) ∧ (IsAvl (T i) → IsAvl t) := by
  have hlt : i < hash.hashsize := hi ▸ cb.gethash_lt _ _ rep.size_pos
  have hold := rep.holds i hlt
  cases htop : root (T i) with
  | none =>
    have empty := root_eq_none.1 htop
    obtain ⟨hash', ret, size, rep'⟩ := add_empty cb rep hi hlt empty
    refine ⟨hash', _, ret, size, rep', ?_, fun _ => isAvl_leaf _ _⟩
    rw [empty]
    exact splice_insert cb (p := []) ⟨by simp [before], by simp [after]⟩ rfl
  | some top =>
    have start : Between cb ([] : IPath δ) (cb.itemGetkey data) := ⟨by simp [before], by simp [after]⟩
    rcases addLoop_returns cb data (p := []) hold.owns (rep.sorted i hlt) start
      htop with ⟨p, v, l, r, he, same, ret⟩ | ⟨f, p, he, between, ret⟩
    · -- the key is there: its data is replaced and the loop above has nothing to do
      rw [plug_nil] at he
      have sorted := rep.sorted i hlt
      rw [he] at sorted hold
      have entries := splice_replace cb v.core.2.removenext v.height sorted same
      have hold' := setCore_holds hold ⟨data, v.core.2.removenext⟩
      have done := add_of_loop cb hi ((rep.items_eq cb hlt).trans htop) ret (.of_forall (rebalance_none _))
      refine ⟨_, plug p (.node ⟨(v.core.1, ⟨data, v.core.2.removenext⟩), v.height⟩ l r), done, rfl, ?_, ?_, ?_⟩
      · refine rep.splice cb hlt hold' ?_ ?_ rfl rfl rfl le_rfl ?_ hi (by rw [he]; exact entries)
        · intro a ha
          left
          rw [he]
          simpa [addrs, cores_plug] using ha
        · intro a ha _
          refine update_of_ne ?_ _ _
          rintro rfl
          rw [he] at ha
          exact ha (by simp [addrs, cores_plug])
        · rw [he]
          simp [datas_plug]
      · rw [he]
        exact entries
      · rw [he, isAvl_plug, isAvl_plug]
        exact id
    · -- a new item under the end of the descent, then the climb
      rw [plug_nil] at he
      have old := rep.old i hlt
      rw [he] at hold old
      obtain ⟨m, hm, hold₁, off₁⟩ := addBelow_holds data hold old
      obtain ⟨t, climb⟩ := exists_climb (refreshTop (leaf hash.fresh data) (f :: p))
        (leaf hash.fresh data) (by simp [leaf]) hold₁.nonneg
      obtain ⟨b, hb, hold₂, off₂⟩ := rebalance_returns climb hold₁
      have cores_t : cores t = cores (plug (f :: p) (leaf hash.fresh data)) :=
        (climb.cores_eq hold₁.nonneg).1.trans (cores_refreshTop _ _ _)
      have entries := splice_insert cb between cores_t
      have hin : ∀ a, a ∈ addrs t ↔ a = hash.fresh ∨ a ∈ addrs (T i) := by
        intro a
        rw [he, addrs, cores_t, ← addrs, mem_addrs_plug, mem_addrs_plug]
        simp [leaf, addrs]
      refine ⟨_, t, add_of_loop cb hi ((rep.items_eq cb hlt).trans htop) (ret _ hm) hb, rfl, ?_, ?_, ?_⟩
      · refine rep.splice cb hlt hold₂ ?_ ?_ rfl rfl rfl (Nat.le_succ _) ?_ hi (by rw [he]; exact entries)
        · intro a ha
          rcases (hin a).1 ha with rfl | ha
          · exact .inr ⟨le_rfl, Nat.lt_succ_self _⟩
          · exact .inl ha
        · intro a ha hlt'
          have hat : a ∉ addrs t := by
            rw [hin]
            rintro (rfl | h)
            exacts [lt_irrefl _ hlt', ha h]
          rw [addrs, cores_t, ← cores_refreshTop, ← addrs] at hat
          rw [he] at ha
          exact (off₂ a hat).trans (off₁ a ha hlt')
        · have len := congrArg List.length cores_t
          simp only [cores_plug, List.length_append, List.length_map] at len
          rw [he]
          simp only [datas, List.length_map, cores_plug, List.length_append, len]
          simp [leaf]
          omega
      · rw [he]
        exact entries
      · intro avl
        rw [he, isAvl_plug] at avl
        exact climb.isAvl (fits_refreshTop avl.2.1)
          (near_of_isAvl (by simp [leaf]) (isAvl_leaf _ _) (.inr rfl))

end

end OpenWifi.CapwapHash
