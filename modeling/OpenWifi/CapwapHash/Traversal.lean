import OpenWifi.CapwapHash.Deletion

/-!
# Walking the hash

`capwap_hash_foreach` first calls the callback on the items in order and puts those it wants deleted on the remove list,
a chain through the items themselves (`foreachItems_returns`).  Then it deletes the items of the chain one by one
(`removeMarked_returns`).
-/

namespace OpenWifi.CapwapHash

open List Zipper Avl LinkedTree
open Function (update update_of_ne update_self forall_update_iff)

variable {κ δ : Type}

inductive Remarked : ITree δ → ITree δ → Prop
  | nil : Remarked .nil .nil
  | node {a : Addr} {d : δ} {n n' : Option Addr} {h : ℤ} {l l' r r' : ITree δ} (left : Remarked l l')
      (right : Remarked r r') :
      Remarked (.node ⟨(a, ⟨d, n⟩), h⟩ l r) (.node ⟨(a, ⟨d, n'⟩), h⟩ l' r')

namespace Remarked

variable {t t' : ITree δ}

theorem refl (t : ITree δ) : Remarked t t := by
  induction t with
  | nil => exact .nil
  | node v l r ihl ihr => exact .node ihl ihr

theorem trans {t'' : ITree δ} (h : Remarked t t') (h' : Remarked t' t'') : Remarked t t'' := by
  induction h generalizing t'' with
  | nil => exact h'
  | node _ _ ihl ihr =>
    cases h' with
    | node hl hr => exact .node (ihl hl) (ihr hr)

theorem datas_eq (h : Remarked t t') : datas t' = datas t := by
  induction h with
  | nil => rfl
  | node _ _ ihl ihr => simp [ihl, ihr]

theorem addrs_eq (h : Remarked t t') : addrs t' = addrs t := by
  induction h with
  | nil => rfl
  | node _ _ ihl ihr => simp [ihl, ihr]

theorem ht_eq (h : Remarked t t') : ht t' = ht t := by
  cases h <;> rfl

theorem isAvl_iff (h : Remarked t t') : IsAvl t' ↔ IsAvl t := by
  induction h with
  | nil => rfl
  | node left right ihl ihr => simp [IsAvl, ihl, ihr, left.ht_eq, right.ht_eq]

end Remarked

/-! ## The remove list -/

/-- The remove list from `head` on, with the data of its items. -/
def Chain (m : Items δ) : Option Addr → List (Addr × δ) → Prop
  | none, [] => True
  | some a, e :: L => e.1 = a ∧ ∃ next, (m a).map Cell.core = some ⟨e.2, next⟩ ∧ Chain m next L
  | _, _ => False

theorem Chain.frame {m m' : Items δ} {head : Option Addr} {L : List (Addr × δ)} (h : Chain m head L)
    (same : ∀ e ∈ L, (m' e.1).map Cell.core = (m e.1).map Cell.core) : Chain m' head L := by
  induction L generalizing head with
  | nil => cases head with
    | none => trivial
    | some a => exact h
  | cons e L ih =>
    cases head with
    | none => exact h
    | some a =>
      obtain ⟨rfl, next, cell, rest⟩ := h
      exact ⟨rfl, next, (same e mem_cons_self).trans cell, ih rest fun f hf => same f (mem_cons_of_mem _ hf)⟩

def deleted (calls : List (δ × Verdict)) : List δ := (calls.filter fun c => c.2.deletes).map Prod.fst

theorem deleted_append (calls : List (δ × Verdict)) (d : δ) (v : Verdict) :
    deleted (calls ++ [(d, v)]) = deleted calls ++ if v.deletes then [d] else [] := by
  cases h : v.deletes <;> simp [deleted, h]

structure Listed (w : Walk δ) (L : List (Addr × δ)) : Prop where
  chain : Chain w.hash.heap w.hash.removeitems L
  logged : L.map Prod.snd = (deleted w.calls).reverse
  nodup : (L.map Prod.fst).Nodup

/-- What a part of the walk over the items of `region` may change. -/
structure Walked (region : List Addr) (w w' : Walk δ) (L L' : List (Addr × δ)) : Prop where
  same : w'.hash = { w.hash with heap := w'.hash.heap, removeitems := w'.hash.removeitems }
  off : Untouched region w.hash.heap w'.hash.heap
  listed : Listed w' L'
  inside : ∀ e ∈ L', e ∈ L ∨ e.1 ∈ region

theorem Walked.trans {region region' : List Addr} {w w' w'' : Walk δ} {L L' L'' : List (Addr × δ)}
    (h : Walked region w w' L L') (h' : Walked region' w' w'' L' L'') : Walked (region ++ region') w w'' L L'' where
  same := by rw [h'.same, h.same]
  off := fun a ha => by
    rw [mem_append, not_or] at ha
    rw [h'.off a ha.2, h.off a ha.1]
  listed := h'.listed
  inside := fun e he => by
    rw [mem_append, ← or_assoc]
    exact (h'.inside e he).imp (h.inside e) id

theorem Walked.mono {region region' : List Addr} {w w' : Walk δ} {L L' : List (Addr × δ)}
    (h : Walked region w w' L L') (sub : ∀ a ∈ region, a ∈ region') : Walked region' w w' L L' where
  same := h.same
  off := fun a ha => h.off a fun ha' => ha (sub a ha')
  listed := h.listed
  inside := fun e he => (h.inside e he).imp id (sub _)

section

variable (verdict : ℕ → δ → Verdict)
include verdict

theorem visitItem_walked {w : Walk δ} {L : List (Addr × δ)} {slot : Option Addr} {p : IPath δ}
    {v : Label (Addr × Core δ)} {l r : ITree δ}
    (hold : Holds ⟨w.hash.heap, slot⟩ (plug p (.node v l r))) (listed : Listed w L) (new : ∀ e ∈ L, e.1 ≠ v.core.1) :
    ∃ w' stop n L', visitItem verdict w v.core.1 = some (w', stop) ∧ Holds ⟨w'.hash.heap, slot⟩
        (plug p (.node ⟨(v.core.1, ⟨v.core.2.data, n⟩), v.height⟩ l r)) ∧ Walked [v.core.1] w w' L L' := by
  have cell := (owns_plug.1 hold.owns).2.1
  simp only at cell
  obtain ⟨result, hres⟩ : ∃ x, x = verdict w.calls.length v.core.2.data := ⟨_, rfl⟩
  obtain ⟨n, hn⟩ : ∃ n, n = if result.deletes then w.hash.removeitems else none := ⟨_, rfl⟩
  have write := setCore_holds hold ⟨v.core.2.data, n⟩
  obtain ⟨m, hm⟩ : ∃ m, m = update w.hash.heap v.core.1
      (some ⟨⟨v.core.2.data, n⟩, v.height, above p, root l, root r⟩) := ⟨_, rfl⟩
  rw [← hm] at write
  have frame : ∀ a ≠ v.core.1, m a = w.hash.heap a := fun a ha => hm ▸ update_of_ne ha _ _
  have chain : Chain m w.hash.removeitems L := listed.chain.frame fun e he => by rw [frame e.1 (new e he)]
  refine ⟨⟨{ w.hash with
      heap := m
      removeitems := if result.deletes then some v.core.1 else w.hash.removeitems },
    w.calls ++ [(v.core.2.data, result)]⟩, result.breaks, n,
      if result.deletes then (v.core.1, v.core.2.data) :: L else L, ?_, write, ?_, ?_,
    ?_, ?_⟩
  · simp only [visitItem, cell, Option.bind_eq_bind, Option.bind_some, ← hres, ← hn, hm]
    rfl
  · rfl
  · intro a ha
    exact frame a (by simpa using ha)
  · cases hd : result.deletes with
    | true =>
      rw [hd, if_pos rfl] at hn
      simp only [if_pos]
      refine ⟨⟨rfl, n, by simp [hm], hn ▸ chain⟩, ?_, ?_⟩
      · simp [deleted_append, hd, listed.logged]
      · refine nodup_cons.2 ⟨fun h => ?_, listed.nodup⟩
        obtain ⟨e, he, ee⟩ := mem_map.1 h
        exact new e he ee
    | false =>
      refine ⟨chain, ?_, listed.nodup⟩
      simp [deleted_append, hd, listed.logged]
  · intro e he
    cases hd : result.deletes with
    | true =>
      rw [hd, if_pos rfl] at he
      exact (mem_cons.1 he).elim (fun e => .inr (by simp [e])) .inl
    | false => exact .inl (by simpa [hd] using he)

theorem foreachItems_none (fuel : ℕ) (w : Walk δ) : foreachItems verdict fuel w none = some (w, false) := by
  cases fuel <;> rfl

theorem foreachItems_item {w : Walk δ} {item : Addr} {it : Cell (Core δ)} (cell : w.hash.heap item = some it)
    (fuel : ℕ) :
    foreachItems verdict (fuel + 1) w (some item) = (foreachItems verdict fuel w it.left).bind fun r =>
        if r.2 then some (r.1, true) else (visitItem verdict r.1 item).bind fun r => if r.2 then some (r.1, true)
          else (r.1.hash.heap item).bind fun it => foreachItems verdict fuel r.1 it.right := by
  simp only [foreachItems, cell, Option.bind_eq_bind, Option.bind_some]
  rfl

theorem foreachItems_returns {t : ITree δ} : ∀ {w : Walk δ} {L : List (Addr × δ)} {slot : Option Addr} {p : IPath δ},
      Holds ⟨w.hash.heap, slot⟩ (plug p t) → Listed w L → (∀ e ∈ L, e.1 ∉ addrs t) →
      ∃ w' stop t' L', Returns (fun fuel => foreachItems verdict fuel w (root t)) (w', stop) ∧
        Remarked t t' ∧ Holds ⟨w'.hash.heap, slot⟩ (plug p t') ∧ Walked (addrs t) w w' L L' := by
  induction t with
  | nil =>
    intro w L slot p hold listed _
    exact ⟨w, false, .nil, L, .of_forall fun n => foreachItems_none _ n _, .nil, hold, rfl,
      fun _ _ => rfl, listed, fun e he => .inl he⟩
  | node v l r ihl ihr =>
    intro w L slot p hold listed new
    simp only [addrs_node, mem_append, mem_cons, not_or] at new
    obtain ⟨dt, -, -⟩ := nodup_addrs_plug.1 hold.nodup
    obtain ⟨vl, vr, -, -, dlr⟩ := nodup_addrs_join (s := .left).1 dt
    have cell := (owns_plug.1 hold.owns).2.1
    simp only at cell
    -- the left subtree
    obtain ⟨w₁, stop₁, l', L₁, ret₁, rem₁, hold₁, walked₁⟩ := ihl (p := ⟨v, .left, r⟩ :: p) hold listed
      fun e he => (new e he).1
    have hold₁' : Holds ⟨w₁.hash.heap, slot⟩ (plug p (.node v l' r)) := hold₁
    cases stop₁ with
    | true =>
      refine ⟨w₁, true, .node v l' r, L₁, ?_, .node rem₁ (.refl r), hold₁', walked₁.mono fun a ha => by simp [ha]⟩
      refine Returns.step ?_ (foreachItems_item verdict cell)
      exact ret₁.bind (.of_forall fun _ => rfl)
    | false =>
      -- the item itself
      have new₁ : ∀ e ∈ L₁, e.1 ≠ v.core.1 ∧ e.1 ∉ addrs r := by
        intro e he
        rcases walked₁.inside e he with he | he
        · exact (new e he).2
        · exact ⟨fun e' => vl (e' ▸ he), fun hr => dlr he hr⟩
      obtain ⟨w₂, stop₂, n, L₂, visit, hold₂, walked₂⟩ := visitItem_walked verdict hold₁'
        walked₁.listed fun e he => (new₁ e he).1
      have walked₁₂ := walked₁.trans walked₂
      cases stop₂ with
      | true =>
        refine ⟨w₂, true, _, L₂, ?_, .node rem₁ (.refl r), hold₂,
          walked₁₂.mono fun a ha => by simpa [or_assoc] using Or.inl ha⟩
        refine Returns.step (ret₁.bind (.of_forall fun _ => ?_)) (foreachItems_item verdict cell)
        simp [visit]
      | false =>
        -- the right subtree
        have new₂ : ∀ e ∈ L₂, e.1 ∉ addrs r := by
          intro e he
          rcases walked₂.inside e he with he | he
          · exact (new₁ e he).2
          · rw [mem_singleton.1 he]
            exact vr
        obtain ⟨w₃, stop₃, r', L₃, ret₃, rem₃, hold₃, walked₃⟩ :=
          ihr (p := ⟨⟨(v.core.1, ⟨v.core.2.data, n⟩), v.height⟩, .right, l'⟩ :: p) hold₂
            walked₂.listed new₂
        refine ⟨w₃, stop₃, .node ⟨(v.core.1, ⟨v.core.2.data, n⟩), v.height⟩ l' r', L₃, ?_,
          .node rem₁ rem₃, hold₃, (walked₁₂.trans walked₃).mono fun a ha => by simpa using ha⟩
        have cell₂ := (owns_plug.1 hold₂.owns).2.1
        simp only at cell₂
        refine Returns.step (ret₁.bind ?_) (foreachItems_item verdict cell)
        simpa [visit, cell₂] using ret₃

end

section

variable [LinearOrder κ] (cb : Callbacks κ δ)

def Within (hashsize : ℕ) (T : ℕ → ITree δ) (L : List (Addr × δ)) : Prop :=
  ∀ e ∈ L, ∃ i < hashsize, e.1 ∈ addrs (T i)

theorem Rep.remark {w w' : Walk δ} {T : ℕ → ITree δ} (rep : Rep cb w.hash T) {i : ℕ}
    (hi : i < w.hash.hashsize) {t : ITree δ} {L L' : List (Addr × δ)} (rem : Remarked (T i) t)
    (hold : Holds ⟨w'.hash.heap, w.hash.items i⟩ t) (walked : Walked (addrs (T i)) w w' L L') :
    Rep cb w'.hash (update T i t) := by
  have same := walked.same
  refine rep.bucket cb hi hold ?_ ?_ rfl ?_ ?_ ?_ ?_ ?_ ?_
  · rw [rem.addrs_eq]
    exact fun a ha => .inl ha
  · exact fun a ha _ => walked.off a ha
  · rw [same]
    exact (Function.update_eq_self i _).symm
  · rw [same]
  · rw [same]
  · rw [same, rem.datas_eq]
  · rw [Sorted, rem.datas_eq]
    exact rep.sorted i hi
  · rw [rem.datas_eq]
    exact rep.placed i hi

theorem foreachBuckets_returns (verdict : ℕ → δ → Verdict) (left : ℕ) :
    ∀ {i : ℕ} {w : Walk δ} {T : ℕ → ITree δ} {L : List (Addr × δ)}, Rep cb w.hash T → Listed w L →
      i + left = w.hash.hashsize → (∀ e ∈ L, ∀ j, i ≤ j → j < w.hash.hashsize → e.1 ∉ addrs (T j)) →
      Within w.hash.hashsize T L →
      ∃ w' T' L', Returns (fun fuel => foreachBuckets verdict fuel left i w) w' ∧ Rep cb w'.hash T' ∧
        (∀ j, Remarked (T j) (T' j)) ∧ Listed w' L' ∧ Within w.hash.hashsize T' L' ∧
        w'.hash.hashsize = w.hash.hashsize := by
  induction left with
  | zero =>
    intro i w T L rep listed _ _ within
    exact ⟨w, T, L, .of_forall fun _ => rfl, rep, fun j => .refl _, listed, within, rfl⟩
  | succ left ih =>
    intro i w T L rep listed size ahead within
    have hi : i < w.hash.hashsize := by omega
    obtain ⟨w₁, stop, t, L₁, ret, rem, hold, walked⟩ := foreachItems_returns verdict (p := [])
      (rep.holds i hi) listed fun e he => ahead e he i le_rfl hi
    have rep₁ := Rep.remark cb rep hi rem hold walked
    have size₁ : w₁.hash.hashsize = w.hash.hashsize := by rw [walked.same]
    have marks : ∀ j, Remarked (T j) (update T i t j) :=
      (forall_update_iff T fun j => Remarked (T j)).2 ⟨rem, fun j _ => .refl _⟩
    have within₁ : Within w.hash.hashsize (update T i t) L₁ := by
      intro e he
      rcases walked.inside e he with he | he
      · obtain ⟨j, hj, ha⟩ := within e he
        exact ⟨j, hj, (marks j).addrs_eq ▸ ha⟩
      · exact ⟨i, hi, (marks i).addrs_eq ▸ he⟩
    rw [← rep.items_eq cb hi] at ret
    cases stop with
    | true => exact ⟨w₁, _, L₁, ret.bind (.of_forall fun _ => rfl), rep₁, marks, walked.listed, within₁, size₁⟩
    | false =>
      have ahead₁ : ∀ e ∈ L₁, ∀ j, i + 1 ≤ j → j < w₁.hash.hashsize → e.1 ∉ addrs (update T i t j) := by
        intro e he j hij hj
        rw [(marks j).addrs_eq]
        rw [size₁] at hj
        rcases walked.inside e he with he | he
        · exact ahead e he j (by omega) hj
        · exact fun ha => rep.apart i hi j hj (by omega) he ha
      obtain ⟨w₂, T₂, L₂, ret₂, rep₂, marks₂, listed₂, within₂, size₂⟩ :=
        ih rep₁ walked.listed (by omega) ahead₁ (size₁ ▸ within₁)
      refine ⟨w₂, T₂, L₂, ret.bind ret₂, rep₂, fun j => ?_, listed₂, size₁ ▸ within₂, size₂.trans size₁⟩
      exact (marks j).trans (marks₂ j)

def RemoveStep (hash hash' : Hash δ) : Prop :=
  ∃ item, hash.removeitems = some item ∧ Returns (fun fuel => removeFirst cb fuel hash item) hash'

/-- Every deletion of the loop meets `RepairsLocally`. -/
def RemovalsRepair (hash : Hash δ) : Prop :=
  ∀ hash', Relation.ReflTransGen (RemoveStep cb) hash hash' → ∀ item,
    hash'.removeitems = some item → RepairsLocally cb hash' fun c => c.1 = item

theorem removeFirst_returns {hash : Hash δ} {T : ℕ → ITree δ} (rep : Rep cb hash T) {e : Addr × δ}
    {next : Option Addr} (cell : (hash.heap e.1).map Cell.core = some ⟨e.2, next⟩) {i : ℕ}
    (hi : i < hash.hashsize) (he : e.1 ∈ addrs (T i)) :
    ∃ hash' t, Returns (fun fuel => removeFirst cb fuel hash e.1) hash' ∧
      hash'.hashsize = hash.hashsize ∧ hash'.removeitems = next ∧ Rep cb hash' (update T i t) ∧
      (∀ d, Stored hash.hashsize (update T i t) d ↔ Stored hash.hashsize T d ∧ cb.itemGetkey d ≠ cb.itemGetkey e.2) ∧
      (∀ j < hash.hashsize, ∀ c ∈ cores (T j), c.1 ≠ e.1 → c ∈ cores (update T i t j)) ∧
      (IsAvl (T i) → RepairsLocally cb hash (fun c => c.1 = e.1) → IsAvl t) := by
  obtain ⟨c, hc, hce⟩ := mem_map.1 he
  obtain ⟨v, hv, rfl⟩ := mem_map.1 hc
  obtain ⟨p, l, r, hT⟩ := exists_plug_of_mem hv
  have core : v.core.2 = ⟨e.2, next⟩ := by
    have := rep.core_eq cb hi hc
    rw [hce, cell, Option.some.injEq] at this
    exact this.symm
  have key : keyOf cb v.core = cb.itemGetkey e.2 := by rw [keyOf, core]
  have home : cb.itemGethash (cb.itemGetkey e.2) hash.hashsize = i := by
    refine rep.placed i hi e.2 ?_
    rw [hT, datas_plug]
    simp [core]
  obtain ⟨hash', t, ret, size, rm, rep', removed, entries⟩ := deleteItem_returns cb (rep.setRemove cb next) hi hT
  have hold := rep.holds i hi
  rw [hT] at hold
  rw [key] at entries
  obtain ⟨it, hit, itcore⟩ := Option.map_eq_some_iff.1 cell
  refine ⟨hash', t, ?_, size, rm, rep', fun d => ?_, ?_, ?_⟩
  · rw [hce] at ret
    simp only [removeFirst, hit, itcore, home, Option.bind_eq_bind, Option.bind_some]
    exact ret
  · rw [rep.stored_splice cb home entries]
    simp
  · intro j hj x hx ne
    by_cases hji : j = i
    · subst hji
      rw [update_self, Removed.mem_cores removed hold.nonneg hold.nodup, ← hT, hce]
      exact ⟨hx, ne⟩
    · rwa [update_of_ne hji]
  · intro avl repairs
    rw [hT] at avl
    exact (removed.isAvl_iff avl).2 (repairs T rep i hi p v l r hT hce)

theorem removeMarked_returns {L : List (Addr × δ)} :
    ∀ {hash : Hash δ} {T : ℕ → ITree δ}, Rep cb hash T → Chain hash.heap hash.removeitems L →
      (L.map Prod.fst).Nodup → Within hash.hashsize T L →
      ∃ hash' T', (∃ N, ∀ fuel, N ≤ fuel → ∀ n, L.length ≤ n → removeMarked cb fuel n hash = some hash') ∧
        hash'.hashsize = hash.hashsize ∧ Rep cb hash' T' ∧
        (∀ d, Stored hash.hashsize T' d ↔ Stored hash.hashsize T d ∧ ∀ e ∈ L, cb.itemGetkey d ≠ cb.itemGetkey e.2) ∧
        ((∀ i < hash.hashsize, IsAvl (T i)) → RemovalsRepair cb hash → ∀ i < hash.hashsize, IsAvl (T' i)) := by
  induction L with
  | nil =>
    intro hash T rep chain _ _
    have none : hash.removeitems = none := by
      cases h : hash.removeitems with
      | none => rfl
      | some a => rw [h] at chain; exact chain.elim
    refine ⟨hash, T, ⟨0, fun fuel _ n _ => ?_⟩, rfl, rep, by simp, fun avl _ => avl⟩
    cases n <;> simp [removeMarked, none]
  | cons e L ih =>
    intro hash T rep chain nodup within
    rw [map_cons, nodup_cons] at nodup
    obtain ⟨i, hi, he⟩ := within e mem_cons_self
    cases head : hash.removeitems with
    | none => rw [head] at chain; exact chain.elim
    | some a =>
      rw [head] at chain
      obtain ⟨rfl, next, cell, rest⟩ := chain
      obtain ⟨hash₁, t, ret, size, rm, rep₁, stored, kept, avl₁⟩ := removeFirst_returns cb rep cell hi he
      -- the other marked items keep their place in the list
      have ne : ∀ f ∈ L, f.1 ≠ e.1 := fun f hf h => nodup.1 (h ▸ mem_map_of_mem hf)
      have still : ∀ f ∈ L, ∃ j < hash.hashsize, ∃ c, c.1 = f.1 ∧ c ∈ cores (T j) ∧ c ∈ cores (update T i t j) := by
        intro f hf
        obtain ⟨j, hj, ha⟩ := within f (mem_cons_of_mem _ hf)
        obtain ⟨c, hc, hcf⟩ := mem_map.1 ha
        exact ⟨j, hj, c, hcf, hc, kept j hj c hc (hcf ▸ ne f hf)⟩
      have chain₁ : Chain hash₁.heap hash₁.removeitems L := by
        rw [rm]
        refine rest.frame fun f hf => ?_
        obtain ⟨j, hj, c, hcf, hc, hc'⟩ := still f hf
        rw [← hcf, rep₁.core_eq cb (size ▸ hj) hc', rep.core_eq cb hj hc]
      have within₁ : Within hash₁.hashsize (update T i t) L := by
        intro f hf
        obtain ⟨j, hj, c, hcf, -, hc'⟩ := still f hf
        exact ⟨j, size ▸ hj, mem_map.2 ⟨c, hc', hcf⟩⟩
      obtain ⟨hash', T', ⟨N, hN⟩, size', rep', stored', avl'⟩ := ih rep₁ chain₁ nodup.2 within₁
      obtain ⟨M, hM⟩ := ret
      rw [size] at stored' avl' size'
      refine ⟨hash', T', ⟨max N M, fun fuel hf n hn => ?_⟩, size', rep', fun d => ?_, ?_⟩
      · obtain ⟨k, rfl⟩ : ∃ k, n = k + 1 := ⟨n - 1, by simp at hn; omega⟩
        have h₁ := hM fuel (le_trans (le_max_right N M) hf)
        simp only [removeMarked, head, Option.bind_eq_bind] at h₁ ⊢
        rw [h₁]
        exact hN fuel (le_trans (le_max_left N M) hf) k (by simpa using hn)
      · rw [stored', stored]
        simp only [mem_cons, forall_eq_or_imp]
        tauto
      · intro avl repairs
        refine avl' ?_ fun h steps => repairs h (.head ⟨e.1, head, M, hM⟩ steps)
        exact (forall_update_iff T fun j t => j < hash.hashsize → IsAvl t).2
          ⟨fun hi => avl₁ (avl i hi) (repairs hash .refl e.1 head), fun j _ => avl j⟩

theorem foreach_returns (verdict : ℕ → δ → Verdict) {hash : Hash δ} {T : ℕ → ITree δ} (rep : Rep cb hash T) :
    ∃ hash' T' w, Returns (fun fuel => foreach cb verdict fuel hash) (hash', w.calls) ∧
      Returns (fun fuel => foreachBuckets verdict fuel hash.hashsize 0 ⟨{ hash with removeitems := none }, []⟩) w ∧
      hash'.hashsize = hash.hashsize ∧ Rep cb hash' T' ∧
      (∀ d, Stored hash.hashsize T' d ↔
        Stored hash.hashsize T d ∧ ∀ e ∈ deleted w.calls, cb.itemGetkey d ≠ cb.itemGetkey e) ∧
      ((∀ i < hash.hashsize, IsAvl (T i)) → RemovalsRepair cb w.hash → ∀ i < hash.hashsize, IsAvl (T' i)) := by
  obtain ⟨w, T₁, L, ret, rep₁, marks, listed, within, size⟩ :=
    foreachBuckets_returns cb verdict hash.hashsize (i := 0) (L := [])
      (w := ⟨{ hash with removeitems := none }, []⟩) (rep.setRemove cb none)
      ⟨trivial, rfl, nodup_nil⟩ (by simp) (by simp) (by simp [Within])
  simp only at size within
  obtain ⟨hash', T', ⟨N, hN⟩, size', rep', stored, avl⟩ :=
    removeMarked_returns cb rep₁ listed.chain listed.nodup (size ▸ within)
  rw [size] at size' stored avl
  have removed : Returns (fun fuel => removeMarked cb fuel fuel w.hash) hash' :=
    ⟨max N L.length, fun m hm => hN m (le_trans (le_max_left _ _) hm) m (le_trans (le_max_right _ _) hm)⟩
  refine ⟨hash', T', w, ?_, ret, size', rep', fun d => ?_, fun h => avl fun i hi => ?_⟩
  · exact ret.bind (removed.bind (.of_forall fun _ => rfl))
  · have same : Stored hash.hashsize T₁ d ↔ Stored hash.hashsize T d := by
      simp [Stored, (marks _).datas_eq]
    have keys : (∀ e ∈ L, cb.itemGetkey d ≠ cb.itemGetkey e.2) ↔
        ∀ e ∈ deleted w.calls, cb.itemGetkey d ≠ cb.itemGetkey e := by
      rw [← reverse_reverse (deleted w.calls), ← listed.logged]
      simp only [mem_reverse, mem_map, Prod.exists, exists_eq_right, Prod.forall, forall_exists_index]
      exact forall_comm
    rw [stored, same, keys]
  · exact (marks i).isAvl_iff.2 (h i hi)

end

end OpenWifi.CapwapHash
