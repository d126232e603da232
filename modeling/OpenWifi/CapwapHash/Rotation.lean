import OpenWifi.CapwapHash.Model
import OpenWifi.Lib.AvlRemoval

/-!
# Linking and rotating items

When the item memory owns a tree, each function that changes links succeeds, the memory then owns the changed tree, and
no item outside is touched.
-/

namespace OpenWifi.CapwapHash

open List Option Zipper Avl LinkedTree
open Function (update update_self update_of_ne)

variable {δ : Type}

abbrev ITree (δ : Type) := LTree (Core δ)

abbrev IPath (δ : Type) := Path (Label (Addr × Core δ))

variable {m : Items δ} {s : Side}

theorem updateHeight_eq {item : Addr} {c : Core δ} {h : ℤ} {par pt pu : Option Addr} {t u : ITree δ}
    (cell : m item = some (.ofSides s c h par (root t) (root u)))
    (ot : Owns m pt t) (ou : Owns m pu u) (nt : Nonneg t) (nu : Nonneg u) :
    updateHeight m item = some (update m item (some (.ofSides s c (max (ht t) (ht u) + 1) par (root t) (root u)))) := by
  have bt := nt.ht_ge
  have bu := nu.ht_ge
  rcases t with _ | ⟨v, l, r⟩ <;> rcases u with _ | ⟨w, l', r'⟩
  · cases s <;> simp [updateHeight, cell, Cell.ofSides]
  · have hw := ou.1
    have hb : max (-1) w.height = w.height := max_eq_right bu
    cases s <;> simp [updateHeight, cell, Cell.ofSides, root, ht, hw, hb]
  · have hv := ot.1
    have hb : max v.height (-1) = v.height := max_eq_left bt
    cases s <;> simp [updateHeight, cell, Cell.ofSides, root, ht, hv, hb]
  · have hv := ot.1
    have hw := ou.1
    have hb : ∀ i j : ℤ, (if j < i then i + 1 else j + 1) = max i j + 1 := by
      intro i j
      split_ifs <;> omega
    cases s <;> simp [updateHeight, cell, Cell.ofSides, root, ht, hv, hw, hb, max_comm]

variable {t : ITree δ} {par : Option Addr}

theorem setParent_owns (h : Owns m par t) (nodup : (addrs t).Nodup) (q : Option Addr) :
    ∃ m', setParent m (root t) q = some m' ∧ Owns m' q t ∧ ∀ a, a ∉ addrs t → m' a = m a := by
  rcases eq_nil_or_join .left t with rfl | ⟨v, l, r, rfl⟩
  · exact ⟨m, rfl, trivial, fun a _ => rfl⟩
  obtain ⟨hv, hl, hr⟩ := owns_join.1 h
  obtain ⟨vl, vr, -, -, -⟩ := nodup_addrs_join.1 nodup
  refine ⟨update m v.core.1 (some (.ofSides .left v.core.2 v.height q (root l) (root r))), ?_, ?_, ?_⟩
  · simp [setParent, hv, Cell.ofSides]
  · rw [owns_join, update_self]
    refine ⟨rfl, hl.frame ?_, hr.frame ?_⟩
    · intro a ha
      exact update_of_ne (ne_of_mem_of_not_mem ha vl) _ _
    · intro a ha
      exact update_of_ne (ne_of_mem_of_not_mem ha vr) _ _
  · intro a ha
    exact update_of_ne (fun e => ha (mem_addrs_join.2 (.inl e))) _ _

/-- Hanging an owned tree under an item: the height of the item is recomputed, and the old child on
that side is forgotten.  The other child may have any parent. -/
theorem setItem_owns {item : Addr} {c : Core δ} {h : ℤ} {par par' q old : Option Addr} {t u : ITree δ}
    (cell : m item = some (.ofSides s c h par old (root u))) (ot : Owns m par' t)
    (ou : Owns m q u) (it : item ∉ addrs t) (iu : item ∉ addrs u) (dt : (addrs t).Nodup)
    (dtu : (addrs t).Disjoint (addrs u)) (nt : Nonneg t) (nu : Nonneg u) : ∃ m', setItem s m item (root t) = some m' ∧
      m' item = some (.ofSides s c (max (ht t) (ht u) + 1) par (root t) (root u)) ∧
      Owns m' (some item) t ∧ (q = some item → Owns m' par (mk s (item, c) t u)) ∧
      ∀ a, a ≠ item → a ∉ addrs t → m' a = m a := by
  obtain ⟨m₁, h₁, ot₁, off₁⟩ := setParent_owns ot dt (some item)
  have cell₁ : m₁ item = some (.ofSides s c h par old (root u)) := (off₁ item it).trans cell
  have ou₁ : Owns m₁ q u := ou.frame fun a ha => off₁ a fun ha' => dtu ha' ha
  -- the two writes to `item`: first the link, then the height
  have off₂ : ∀ x : Cell (Core δ), ∀ a, a ≠ item → update m₁ item (some x) a = m₁ a := fun x a ha => update_of_ne ha _ _
  have ot₂ : ∀ x : Cell (Core δ), Owns (update m₁ item (some x)) (some item) t := fun x =>
    ot₁.frame fun a ha => off₂ x a fun e => it (e ▸ ha)
  have ou₂ : ∀ x : Cell (Core δ), Owns (update m₁ item (some x)) q u := fun x =>
    ou₁.frame fun a ha => off₂ x a fun e => iu (e ▸ ha)
  have upd := updateHeight_eq (m := update m₁ item
    (some (.ofSides s c h par (root t) (root u)))) (update_self _ _ _) (ot₂ _) (ou₂ _) nt nu
  rw [Function.update_idem] at upd
  refine ⟨update m₁ item (some (.ofSides s c (max (ht t) (ht u) + 1) par (root t) (root u))), ?_,
    update_self _ _ _, ot₂ _, ?_, ?_⟩
  · simp only [setItem, h₁, cell₁, bind_eq_bind, bind_some, Cell.setChild_ofSides]
    exact upd
  · rintro rfl
    exact owns_join.2 ⟨update_self _ _ _, ot₂ _, ou₂ _⟩
  · intro a ha hat
    rw [off₂ _ a ha, off₁ a hat]

/-! ## Buckets that hold a tree -/

/-- The memory owns the tree of the bucket; no address occurs twice and all stored heights are non-negative. -/
structure Holds (b : Bucket δ) (t : ITree δ) : Prop where
  root_eq : b.root = root t
  owns : Owns b.heap none t
  nodup : (addrs t).Nodup
  nonneg : Nonneg t

def Untouched (l : List Addr) (m m' : Items δ) : Prop := ∀ a, a ∉ l → m' a = m a

theorem Untouched.trans {l : List Addr} {m m' m'' : Items δ} (h : Untouched l m m')
    (h' : Untouched l m' m'') : Untouched l m m'' := fun a ha => (h' a ha).trans (h a ha)

variable {p : IPath δ}

theorem parentSide_eq {item : Addr} (h : OwnsPath m p (some item)) (off : item ∉ around p) :
    ∃ s, parentSide m (above p) item = some s ∧ ∀ f ∈ p.head?, s = f.side := by
  cases p with
  | nil => exact ⟨.right, rfl, by simp⟩
  | cons f fs =>
    obtain ⟨hf, -, -⟩ := h
    simp only [around, mem_cons, mem_append, not_or] at off
    refine ⟨f.side, ?_, by simp⟩
    have hs : root f.sibling ≠ some item := fun e => off.2.1 (mem_addrs_of_root e)
    cases hfs : f.side
    · simp [parentSide, above, hf, hfs, Cell.ofSides]
    · simp [parentSide, above, hf, hfs, Cell.ofSides, hs]

theorem attach_holds {r hole par : Option Addr}
    (op : OwnsPath m p hole) (ot : Owns m par t) (nodup : (addrs (plug p t)).Nodup)
    (nonneg : Nonneg (plug p t)) (side : ∀ f ∈ p.head?, s = f.side) (hr : ∀ f fs, p = f :: fs → r = root (plug p t)) :
    ∃ b, attach ⟨m, r⟩ (above p) s (root t) = some b ∧ Holds b (plug (refreshTop t p) t) ∧
      Untouched (addrs (plug p t)) m b.heap := by
  have nodup' : (addrs (plug (refreshTop t p) t)).Nodup := by
    rwa [addrs, cores_refreshTop]
  obtain ⟨dt, dp, dtp⟩ := nodup_addrs_plug.1 nodup
  obtain ⟨np, nt⟩ := nonneg_plug.1 nonneg
  cases p with
  | nil =>
    obtain ⟨m', h', ot', off⟩ := setParent_owns ot dt none
    refine ⟨⟨m', root t⟩, ?_, ⟨rfl, ot', nodup', nonneg.refreshTop⟩, off⟩
    simp [attach, above, h']
  | cons f fs =>
    obtain ⟨hf, of, ofs⟩ := op
    obtain rfl : s = f.side := side f rfl
    simp only [around, nodup_cons, mem_append, not_or, nodup_append'] at dp
    simp only [around, disjoint_cons_right, disjoint_append_right] at dtp
    obtain ⟨m', h', -, -, ot', off⟩ := setItem_owns hf ot of dtp.1 dp.1.1 dt dtp.2.1 nt
      (np f mem_cons_self).2
    have ofs' : OwnsPath m' fs (some (faddr f)) := by
      apply ofs.frame
      intro a ha
      exact off a (fun e => dp.1.2 (e ▸ ha)) (fun hat => dtp.2.2 hat ha)
    refine ⟨⟨m', r⟩, ?_, ⟨?_, ?_, nodup', nonneg.refreshTop⟩, ?_⟩
    · simp [attach, above, h']
    · exact (hr f fs rfl).trans (root_plug_refreshTop f fs t t).symm
    · rw [plug_refreshTop, owns_plug, root_mk]
      exact ⟨ofs', ot' rfl⟩
    · intro a ha
      rw [mem_addrs_plug, around, mem_cons] at ha
      exact off a (fun e => ha (.inr (.inl e))) (fun hat => ha (.inl hat))

variable {b : Bucket δ} {v : Label (Addr × Core δ)}

theorem setCell_holds {l r : ITree δ} (h : Holds b (plug p (.node v l r))) (c : Core δ) {height : ℤ}
    (pos : 0 ≤ height) :
    Holds ⟨update b.heap v.core.1 (some ⟨c, height, above p, root l, root r⟩), b.root⟩
      (plug p (.node ⟨(v.core.1, c), height⟩ l r)) := by
  obtain ⟨op, -, ol, or⟩ := owns_plug.1 h.owns
  obtain ⟨dt, -, dtp⟩ := nodup_addrs_plug.1 h.nodup
  obtain ⟨np, nt⟩ := nonneg_plug.1 h.nonneg
  obtain ⟨vl, vr, -, -, -⟩ := nodup_addrs_join (s := .left).1 dt
  have hv : v.core.1 ∈ addrs (.node v l r) := mem_addrs_join (s := .left).2 (.inl rfl)
  have same : addrs (plug p (.node ⟨(v.core.1, c), height⟩ l r)) = addrs (plug p (.node v l r)) := by
    simp [addrs, cores_plug]
  have off : ∀ x : Cell (Core δ), ∀ a, a ≠ v.core.1 → update b.heap v.core.1 (some x) a = b.heap a :=
    fun x a ha => update_of_ne ha _ _
  refine ⟨?_, ?_, same ▸ h.nodup, ?_⟩
  · refine h.root_eq.trans ?_
    cases p with
    | nil => rfl
    | cons f fs => exact root_plug_cons f fs _ _
  · rw [owns_plug]
    refine ⟨op.frame ?_, update_self _ _ _, ol.frame ?_, or.frame ?_⟩
    · intro a ha
      exact off _ a fun e => dtp hv (e ▸ ha)
    · intro a ha
      exact off _ a (ne_of_mem_of_not_mem ha vl)
    · intro a ha
      exact off _ a (ne_of_mem_of_not_mem ha vr)
  · have nv := nonneg_join (s := .left) (v := v).1 nt
    exact nonneg_plug.2 ⟨np, nonneg_join (s := .left).2 ⟨pos, nv.2⟩⟩

theorem setCore_holds {l r : ITree δ} (h : Holds b (plug p (.node v l r))) (c : Core δ) :
    Holds ⟨update b.heap v.core.1 (some ⟨c, v.height, above p, root l, root r⟩), b.root⟩
      (plug p (.node ⟨(v.core.1, c), v.height⟩ l r)) :=
  setCell_holds h c (nonneg_join (s := .left).1 (nonneg_plug.1 h.nonneg).2).1

theorem addrs_mk_mk (s : Side) (x y : Label (Addr × Core δ)) (a c d : ITree δ) :
    addrs (mk s y.core (mk s x.core a c) d) = addrs (join s x a (join s y c d)) := by
  cases s <;> simp [addrs, mk, cores_join_left, cores_join_right]

theorem rotate_holds {x y : Label (Addr × Core δ)} {a c d : ITree δ}
    (h : Holds b (plug p (join s x a (join s y c d)))) :
    ∃ b', rotate s b x.core.1 = some b' ∧ Holds b' (plug (refreshTop (mk s y.core (mk s x.core a c) d) p)
        (mk s y.core (mk s x.core a c) d)) ∧ Untouched (addrs (plug p (join s x a (join s y c d)))) b.heap b'.heap := by
  have same := addrs_mk_mk s x y a c d
  obtain ⟨op, ox⟩ := owns_plug.1 h.owns
  obtain ⟨dt, dp, dtp⟩ := nodup_addrs_plug.1 h.nodup
  obtain ⟨np, nt⟩ := nonneg_plug.1 h.nonneg
  obtain ⟨cx, oa, oy⟩ := owns_join.1 ox
  obtain ⟨cy, oc, od⟩ := owns_join.1 oy
  obtain ⟨-, na, ny⟩ := nonneg_join.1 nt
  obtain ⟨-, nc, nd⟩ := nonneg_join.1 ny
  obtain ⟨xa, xy, da, dy, day⟩ := nodup_addrs_join.1 dt
  obtain ⟨yc, yd, dc, dd, dcd⟩ := nodup_addrs_join.1 dy
  rw [root_join] at op cx
  simp only [mem_addrs_join, not_or] at xy
  have hin : ∀ q, q ∈ addrs (join s x a (join s y c d)) ↔
      q = x.core.1 ∨ q ∈ addrs a ∨ q = y.core.1 ∨ q ∈ addrs c ∨ q ∈ addrs d := by
    intro q
    rw [mem_addrs_join, mem_addrs_join]
  have day' : ∀ q ∈ addrs a, q ≠ y.core.1 ∧ q ∉ addrs c ∧ q ∉ addrs d := by
    intro q hq
    have := fun hy => day hq (mem_addrs_join.2 hy)
    tauto
  obtain ⟨side, hside, sides⟩ := parentSide_eq op fun hx => dtp ((hin _).2 (.inl rfl)) hx
  -- `item` takes over the inner subtree `c`, then `up` takes `item`
  rw [← Cell.ofSides_flip] at cx
  obtain ⟨m₁, h₁, -, -, ox₁, off₁⟩ := setItem_owns cx oc oa xy.2.1 xa dc
    (fun q hc ha => (day' q ha).2.1 hc) nc na
  have cy₁ : m₁ y.core.1 = some (.ofSides s y.core.2 y.height (some x.core.1) (root c) (root d)) :=
    (off₁ _ (Ne.symm xy.1) yc).trans cy
  have od₁ : Owns m₁ (some y.core.1) d := by
    apply od.frame
    intro q hq
    exact off₁ q (fun e => xy.2.2 (e ▸ hq)) (fun hc => dcd hc hq)
  replace ox₁ := ox₁ rfl
  rw [mk_flip] at ox₁
  have hx₁ : ∀ q, q ∈ addrs (mk s x.core a c) ↔ q = x.core.1 ∨ q ∈ addrs a ∨ q ∈ addrs c := fun q => mem_addrs_join
  have nx₁ : (addrs (mk s x.core a c)).Nodup :=
    nodup_addrs_join.2 ⟨xa, xy.2.1, da, dc, fun q ha hc => (day' q ha).2.1 hc⟩
  obtain ⟨m₂, h₂, -, -, oy₂, off₂⟩ := setItem_owns cy₁ ox₁ od₁
    (by rw [hx₁]; rintro (e | ha | hc); exacts [xy.1 e.symm, (day' _ ha).1 rfl, yc hc]) yd nx₁
    (by
      intro q hq hd
      rcases (hx₁ q).1 hq with e | ha | hc
      exacts [xy.2.2 (e ▸ hd), (day' q ha).2.2 hd, dcd hc hd]) (na.mk nc) nd
  have off : ∀ q, q ∉ addrs (join s x a (join s y c d)) → m₂ q = b.heap q := by
    intro q hq
    rw [hin] at hq
    rw [off₂ q (by tauto) (by rw [hx₁]; tauto), off₁ q (by tauto) (by tauto)]
  have op₂ : OwnsPath m₂ p (some x.core.1) := op.frame fun q hq => off q fun hq' => dtp hq' hq
  obtain ⟨b', h', hold, off'⟩ := attach_holds (r := b.root) op₂ (oy₂ rfl)
    (nodup_addrs_plug.2 ⟨same ▸ dt, dp, same ▸ dtp⟩)
    (nonneg_plug.2 ⟨np, (na.mk nc).mk nd⟩) sides (by
      rintro f fs rfl
      exact h.root_eq.trans (root_plug_cons f fs _ _))
  refine ⟨b', ?_, hold, ?_⟩
  · rw [root_mk] at h₂ h'
    rw [Cell.ofSides_flip] at cx
    simp only [rotate, cx, bind_eq_bind, bind_some, Cell.ofSides_parent, hside,
      Cell.ofSides_child_flip, cy, Cell.ofSides_child, h₁, h₂]
    exact h'
  · intro q hq
    rw [mem_addrs_plug, not_or] at hq
    rw [off' q (by rw [mem_addrs_plug, same]; tauto), off q hq.1]

theorem getBalanceItem_eq {l r : ITree δ} (o : Owns m par (.node v l r)) :
    getBalanceItem m v.core.1 = some (ht l - ht r) := by
  obtain ⟨cell, ol, or⟩ := o
  rcases l with _ | ⟨x, l₁, l₂⟩ <;> rcases r with _ | ⟨y, r₁, r₂⟩
  · simp [getBalanceItem, cell]
  · have hy := or.1
    simp only [getBalanceItem, cell, root, ht, hy, bind_eq_bind, bind_some]
    exact congrArg some (by ring)
  · have hx := ol.1
    simp [getBalanceItem, cell, root, ht, hx]
  · have hx := ol.1
    have hy := or.1
    simp [getBalanceItem, cell, root, ht, hx, hy]

theorem getBalanceItem_join {t u : ITree δ} (o : Owns m par (join s v t u)) :
    getBalanceItem m v.core.1 = some (lean .left (join s v t u)) := by
  cases s
  · exact getBalanceItem_eq o
  · exact getBalanceItem_eq o

theorem lift_holds {x y : Addr} (h : Holds b (plug p t)) (heavy : 1 < lean s t) (hx : root t = some x)
    (hy : root (child s t) = some y) : ∃ b', (do
        let b ← if lean s (child s t) < 0 then rotate s b y else pure b
        rotate s.flip b x) = some b' ∧ Holds b' (plug (refreshTop (lift s t) p) (lift s t)) ∧
      Untouched (addrs (plug p t)) b.heap b'.heap := by
  obtain ⟨np, nt⟩ := nonneg_plug.1 h.nonneg
  cases heavyForm nt heavy with
  | single v w a c d low _ =>
    simp only [child_join, root_join, some.injEq] at hx hy
    subst hx hy
    have hl : ¬ lean s (join s w a c) < 0 := by
      simp only [lean, child_join, child_flip_join]
      omega
    have e : join s v (join s w a c) d = join s.flip v d (join s.flip w c a) := by
      rw [join_flip, join_flip]
    rw [lift_single low, child_join, if_neg hl, pure_bind]
    rw [e] at h ⊢
    obtain ⟨b', h', hold, off⟩ := rotate_holds h
    rw [mk_flip, mk_flip] at hold
    exact ⟨b', h', hold, off⟩
  | double v w z a c c' d high _ =>
    simp only [child_join, root_join, some.injEq] at hx hy
    subst hx hy
    have hl : lean s (join s w a (join s z c c')) < 0 := by
      simp only [lean, child_join, child_flip_join, ht_join]
      omega
    rw [lift_double high, child_join, if_pos hl]
    -- first the child, whose ancestor is the item itself
    have h₀ : Holds b (plug (⟨v, s, d⟩ :: p) (join s w a (join s z c c'))) := h
    obtain ⟨b₁, h₁, hold₁, off₁⟩ := rotate_holds h₀
    rw [plug_refreshTop] at hold₁
    have e : mk s v.core (mk s z.core (mk s w.core a c) c') d =
        join s.flip ⟨v.core, max (ht (mk s z.core (mk s w.core a c) c')) (ht d) + 1⟩ d
          (join s.flip ⟨z.core, max (ht (mk s w.core a c)) (ht c') + 1⟩ c' (mk s w.core a c)) := by
      rw [join_flip, join_flip]
      rfl
    have same : addrs (plug p (mk s v.core (mk s z.core (mk s w.core a c) c') d)) =
        addrs (plug p (join s v (join s w a (join s z c c')) d)) := by
      simp only [addrs]
      congr 1
      apply cores_plug_congr
      cases s <;> simp [mk, cores_join_left, cores_join_right]
    simp only at hold₁ same
    rw [e] at hold₁ same
    obtain ⟨b₂, h₂, hold₂, off₂⟩ := rotate_holds hold₁
    rw [mk_flip, mk_flip] at hold₂
    refine ⟨b₂, ?_, hold₂, ?_⟩
    · simp only [bind_eq_bind, h₁, bind_some]
      exact h₂
    · rw [same] at off₂
      exact Untouched.trans off₁ off₂

section

variable {x : Addr} (h : Holds b (plug p t)) (hx : root t = some x)
include h hx

theorem balanceTree_balanced (level : RootBalanced t) : balanceTree b x = some b := by
  obtain ⟨-, ot⟩ := owns_plug.1 h.owns
  rcases eq_nil_or_join .left t with rfl | ⟨v, l, r, rfl⟩
  · simp at hx
  rw [root_join, some.injEq] at hx
  subst hx
  obtain ⟨low, high⟩ := level
  simp only [balanceTree, getBalanceItem_join ot, bind_eq_bind, bind_some]
  rw [if_neg (by omega), if_neg (by omega)]
  rfl

theorem balanceTree_heavy (heavy : 1 < lean s t) :
    ∃ b', balanceTree b x = some b' ∧ Holds b' (plug (refreshTop (lift s t) p) (lift s t)) ∧
      Untouched (addrs (plug p t)) b.heap b'.heap := by
  obtain ⟨-, ot⟩ := owns_plug.1 h.owns
  obtain ⟨-, nt⟩ := nonneg_plug.1 h.nonneg
  obtain ⟨y, hy⟩ : ∃ y, root (child s t) = some y := by
    cases heavyForm nt heavy <;> simp
  obtain ⟨b', h', hold, off⟩ := lift_holds h heavy hx hy
  refine ⟨b', ?_, hold, off⟩
  rcases eq_nil_or_join s t with rfl | ⟨v, l, r, rfl⟩
  · simp at hx
  rw [root_join, some.injEq] at hx
  subst hx
  obtain ⟨cell, ol, -⟩ := owns_join.1 ot
  rw [child_join] at hy h'
  rcases eq_nil_or_join s l with rfl | ⟨w, a, c, rfl⟩
  · simp at hy
  rw [root_join, some.injEq] at hy
  subst hy
  simp only [balanceTree, getBalanceItem_join ot, cell, bind_eq_bind, bind_some]
  cases s
  · rw [if_pos heavy]
    simp only [Cell.ofSides, root_join, bind_some, getBalanceItem_join ol]
    exact h'
  · have hl : lean .left (join .right v (join .right w a c) r) < -1 := by
      rw [show Side.left = Side.flip .right from rfl, lean_flip]
      omega
    have flip : ∀ u : ITree δ, lean .right u < 0 ↔ lean .left u > 0 := by
      intro u
      rw [show Side.right = Side.flip .left from rfl, lean_flip]
      omega
    rw [if_neg (by omega), if_pos hl]
    simp only [Cell.ofSides, root_join, bind_some, getBalanceItem_join ol]
    simp only [flip] at h'
    exact h'

theorem balanceTree_holds : ∃ b' T, balanceTree b x = some b' ∧ Rebalanced p t T ∧ Holds b' T ∧
      Untouched (addrs (plug p t)) b.heap b'.heap := by
  by_cases level : RootBalanced t
  · exact ⟨b, _, balanceTree_balanced h hx level, .stay level, h, fun _ _ => rfl⟩
  · obtain ⟨s, heavy⟩ := not_rootBalanced level
    obtain ⟨b', h', hold, off⟩ := balanceTree_heavy h hx heavy
    exact ⟨b', _, h', .turn s heavy, hold, off⟩

end

end OpenWifi.CapwapHash
