import OpenWifi.CapwapHash.Table

/-!
# Deleting an item

`capwap_hash_deleteitem` unlinks an item that is reached by its address, so it does not depend on the search.
-/

namespace OpenWifi.CapwapHash

open List Option Zipper Avl LinkedTree
open Function (update update_of_ne)

variable {κ δ : Type} {m : Items δ}

theorem descend_returns {d : Side} {t : ITree δ} : ∀ {par : Option Addr} {x : Addr}, Owns m par t → root t = some x →
      ∃ (q : IPath δ) (w : Label (Addr × Core δ)) (a : ITree δ), t = plug q (join d w .nil a) ∧
        Avl.Along d q ∧ Returns (fun fuel => descend d m fuel x) w.core.1 := by
  induction t using side_induction with
  | nil => simp
  | node v l r ih =>
    intro par x o hx
    replace ih := @ih d
    rw [← join_child d v l r] at o hx ⊢
    generalize child d (.node v l r) = t at *
    generalize child d.flip (.node v l r) = u at *
    rw [root_join, some.injEq] at hx
    subst hx
    obtain ⟨cell, ot, -⟩ := owns_join.1 o
    cases hy : root t with
    | none =>
      obtain rfl := root_eq_none.1 hy
      refine ⟨[], v, u, rfl, by simp [Avl.Along], .step (.of_forall fun _ => rfl) fun n => ?_⟩
      simp [descend, cell]
    | some y =>
      obtain ⟨q, w, a, rfl, along, ret⟩ := ih ot hy
      refine ⟨q ++ [⟨v, d, u⟩], w, a,
        by rw [plug_append]; rfl, forall_mem_append.2 ⟨along, by simp⟩, ret.step fun n => ?_⟩
      simp [descend, cell, hy]

/-- Giving the replacement both subtrees, left before right as the source does.  Its old subtree `a`
may meanwhile hang somewhere inside `y`. -/
theorem setBoth_owns {s : Side} {item : Addr} {c : Core δ} {h : ℤ}
    {par q qy qo : Option Addr} {a y o : ITree δ} (c' : Core δ) (h' : ℤ) (par' : Option Addr)
    (cell : m item = some (.ofSides s c h par (root a) none)) (oa : Owns m q a) (oy : Owns m qy y)
    (oo : Owns m qo o) (ia : item ∉ addrs a) (iy : item ∉ addrs y) (io : item ∉ addrs o)
    (dy : (addrs y).Nodup) (d : (addrs o).Nodup) (dyo : (addrs y).Disjoint (addrs o))
    (dao : (addrs a).Disjoint (addrs o)) (na : Nonneg a) (ny : Nonneg y) (no : Nonneg o) : ∃ m', (do
        let m ← setLeftItem m item (Cell.ofSides s c' h' par' (root y) (root o)).left
        setRightItem m item (Cell.ofSides s c' h' par' (root y) (root o)).right) = some m' ∧
      Owns m' par (mk s (item, c) y o) ∧ ∀ x, x ≠ item → x ∉ addrs y → x ∉ addrs o → m' x = m x := by
  cases s with
  | left =>
    obtain ⟨m₁, h₁, cell₁, oy₁, -, off₁⟩ := setItem_owns (u := .nil) cell oy (owns_nil m none) iy
      (by simp) dy (by simp) ny nonneg_nil
    have oo₁ : Owns m₁ qo o := oo.frame fun x hx => off₁ x (ne_of_mem_of_not_mem hx io) fun hy => dyo hy hx
    rw [← Cell.ofSides_flip] at cell₁
    obtain ⟨m₂, h₂, -, -, own, off₂⟩ := setItem_owns cell₁ oo₁ oy₁ io iy d dyo.symm no ny
    rw [mk_flip] at own
    refine ⟨m₂, ?_, own rfl, fun x hx hy ho => (off₂ x hx ho).trans (off₁ x hx hy)⟩
    simp only [setLeftItem, setRightItem, Cell.ofSides, h₁, bind_eq_bind, bind_some]
    exact h₂
  | right =>
    rw [← Cell.ofSides_flip] at cell
    obtain ⟨m₁, h₁, cell₁, oo₁, -, off₁⟩ := setItem_owns (u := a) cell oo oa io ia d dao.symm no na
    have oy₁ : Owns m₁ qy y := oy.frame fun x hx => off₁ x (ne_of_mem_of_not_mem hx iy) fun ho => dyo hx ho
    rw [Side.flip_right, ← Cell.ofSides_flip] at cell₁
    obtain ⟨m₂, h₂, -, -, own, off₂⟩ := setItem_owns cell₁ oy₁ oo₁ iy io dy dyo ny no
    refine ⟨m₂, ?_, own rfl, fun x hx hy ho => (off₂ x hx hy).trans (off₁ x hx ho)⟩
    simp only [setLeftItem, setRightItem, Cell.ofSides, bind_eq_bind]
    rw [Side.flip_right] at h₁
    rw [h₁]
    exact h₂

variable {p : IPath δ}

theorem takeInner {s : Side} {v w : Label (Addr × Core δ)}
    {f : Frame (Label (Addr × Core δ))} {fs : IPath δ} {a o : ITree δ} (c' : Core δ) (h' : ℤ)
    (par' : Option Addr) (along : Avl.Along s.flip (f :: fs))
    (own : Owns m none (plug p (join s v (plug (f :: fs) (join s w a .nil)) o)))
    (nodup : (addrs (plug p (join s v (plug (f :: fs) (join s w a .nil)) o))).Nodup)
    (nonneg : Nonneg (join s v (plug (f :: fs) (join s w a .nil)) o)) :
    m w.core.1 = some (.ofSides s w.core.2 w.height (some (faddr f)) (root a) none) ∧ ∃ m', (do
        let m ← setItem s.flip m (faddr f) (root a)
        let m ← setLeftItem m w.core.1
          (Cell.ofSides s c' h' par' (root (plug (f :: fs) (join s w a .nil))) (root o)).left
        setRightItem m w.core.1
          (Cell.ofSides s c' h' par' (root (plug (f :: fs) (join s w a .nil))) (root o)).right) = some m' ∧
      Owns m' (some (faddr f)) (merged s (f :: fs) w.core a o) ∧
      ∀ x, x ∉ addrs (plug (f :: fs) (join s w a .nil)) → x ∉ addrs o → m' x = m x := by
  obtain ⟨dt, dp, dtp⟩ := nodup_addrs_plug.1 nodup
  obtain ⟨vy, vo, dy, d, dyo⟩ := nodup_addrs_join.1 dt
  obtain ⟨-, ny, no⟩ := nonneg_join.1 nonneg
  obtain ⟨dw, dq, dwq⟩ := nodup_addrs_plug.1 dy
  obtain ⟨nq, nw⟩ := nonneg_plug.1 ny
  obtain ⟨wa, -, da, -, -⟩ := nodup_addrs_join.1 dw
  obtain ⟨-, na, -⟩ := nonneg_join.1 nw
  have side : s.flip = f.side := (along f mem_cons_self).symm
  have hw : w.core.1 ∈ addrs (join s w a .nil) := mem_addrs_join.2 (.inl rfl)
  have daq : (addrs a).Disjoint (around (f :: fs)) := fun x ha hq => dwq (mem_addrs_join.2 (.inr (.inl ha))) hq
  -- the whole tree, read at the place of the replacement
  have whole : ∀ t : ITree δ, plug (f :: (fs ++ ⟨v, s, o⟩ :: p)) t = plug p (join s v (plug (f :: fs) t) o) := by
    intro t
    rw [← cons_append, plug_append]
    rfl
  obtain ⟨op, ow⟩ := owns_plug.1 ((whole _).symm ▸ own)
  obtain ⟨hf, of, ofs⟩ := op
  obtain ⟨cellw, oa, -⟩ := owns_join.1 ow
  refine ⟨cellw, ?_⟩
  have nodup' : (addrs (plug (f :: (fs ++ ⟨v, s, o⟩ :: p)) (join s w a .nil))).Nodup := (whole _).symm ▸ nodup
  obtain ⟨-, dr, dwr⟩ := nodup_addrs_plug.1 nodup'
  simp only [around, nodup_cons, mem_append, not_or, nodup_append'] at dr
  simp only [around, disjoint_cons_right, disjoint_append_right] at dwr daq
  obtain ⟨m₁, h₁, -, oa₁, own₁, off₁⟩ := setItem_owns hf oa of daq.1 dr.1.1 da daq.2.1 na
    (nq f mem_cons_self).2
  -- the bucket without the replacement is a tree again
  have ofs₁ : OwnsPath m₁ (fs ++ ⟨v, s, o⟩ :: p) (some (faddr f)) := by
    apply ofs.frame
    intro x hx
    refine off₁ x (fun e => dr.1.2 (e ▸ hx)) fun ha => ?_
    exact dwr.2.2 (mem_addrs_join.2 (.inr (.inl ha))) hx
  have own₁' : Owns m₁ none (plug p (join s v (plug (refreshTop a (f :: fs)) a) o)) := by
    have : plug p (join s v (plug (refreshTop a (f :: fs)) a) o) =
        plug (fs ++ ⟨v, s, o⟩ :: p) (mk f.side f.value.core a f.sibling) := by
      rw [plug_append, plug_refreshTop]
      rfl
    rw [this]
    exact owns_plug.2 ⟨by rwa [root_mk], own₁ rfl⟩
  obtain ⟨-, oy₁, oo₁⟩ := owns_join.1 (owns_plug.1 own₁').2
  have cellw₁ : m₁ w.core.1 = some (.ofSides s w.core.2 w.height (some (faddr f)) (root a) none) :=
    (off₁ _ (fun e => dwq hw (by rw [e]; exact mem_cons_self)) wa).trans cellw
  have ha₁ : ∀ x, x ∈ addrs (plug (refreshTop a (f :: fs)) a) ↔ x ∈ addrs a ∨ x ∈ around (f :: fs) := by
    intro x
    rw [addrs, cores_refreshTop, ← addrs, mem_addrs_plug]
  have hin : ∀ x, x ∈ addrs a ∨ x ∈ around (f :: fs) → x ∈ addrs (plug (f :: fs) (join s w a .nil)) := by
    intro x hx
    rw [mem_addrs_plug, mem_addrs_join]
    tauto
  have wq : w.core.1 ∉ around (f :: fs) := fun hq => dwq hw hq
  obtain ⟨m', h', own', off'⟩ := setBoth_owns c' h' par' cellw₁ oa₁ oy₁ oo₁ wa
    (by rw [ha₁]; tauto) (fun ho => dyo (mem_addrs_plug.2 (.inl hw)) ho)
    (by
      rw [addrs, cores_refreshTop, ← addrs]
      exact nodup_addrs_plug.2 ⟨da, dq, fun x hx hq => dwq (mem_addrs_join.2 (.inr (.inl hx))) hq⟩)
    d (fun x hx ho => dyo (hin x ((ha₁ x).1 hx)) ho) (fun x hx ho => dyo (hin x (.inl hx)) ho) na
    (Nonneg.refreshTop (nonneg_plug.2 ⟨nq, na⟩)) no
  refine ⟨m', ?_, own', ?_⟩
  · rw [side, h₁]
    rw [root_plug_refreshTop f fs a (join s w a .nil)] at h'
    exact h'
  · intro x hy ho
    have hx : x ∉ addrs a ∧ x ∉ around (f :: fs) := ⟨fun h => hy (hin x (.inl h)), fun h => hy (hin x (.inr h))⟩
    rw [off' x (fun e => hy (e ▸ mem_addrs_plug.2 (.inl hw))) (by rw [ha₁]; tauto) ho]
    exact off₁ x (fun e => hx.2 (by rw [e]; exact mem_cons_self)) hx.1

variable {v : Label (Addr × Core δ)}

theorem takeReplacement_returns {r : Option Addr} {s : Side} {y o : ITree δ} (h : Holds ⟨m, r⟩ (plug p (join s v y o)))
    (ne : y ≠ .nil) : ∃ (q : IPath δ) (w : Label (Addr × Core δ)) (a : ITree δ) (m' : Items δ) (par : Option Addr),
      y = plug q (join s w a .nil) ∧ Avl.Along s.flip q ∧
      Returns (fun fuel => takeReplacement fuel s m v.core.1) (m', w.core.1) ∧
      Owns m' par (merged s q w.core a o) ∧ ∀ x, x ∉ addrs y → x ∉ addrs o → m' x = m x := by
  obtain ⟨op, ot⟩ := owns_plug.1 h.owns
  obtain ⟨dt, dp, dtp⟩ := nodup_addrs_plug.1 h.nodup
  obtain ⟨-, nt⟩ := nonneg_plug.1 h.nonneg
  obtain ⟨cell, oy, oo⟩ := owns_join.1 ot
  obtain ⟨vy, vo, dy, d, dyo⟩ := nodup_addrs_join.1 dt
  obtain ⟨-, ny, no⟩ := nonneg_join.1 nt
  rcases eq_nil_or_join s.flip y with rfl | ⟨x, inner, u, rfl⟩
  · exact absurd rfl ne
  obtain ⟨cellx, oi, ou⟩ := owns_join.1 oy
  obtain ⟨xi, xu, di, du, diu⟩ := nodup_addrs_join.1 dy
  obtain ⟨-, ni, nu⟩ := nonneg_join.1 ny
  simp only [root_join] at cell
  cases hi : root inner with
  | none =>
    obtain rfl := root_eq_none.1 hi
    have xo : x.core.1 ∉ addrs o := fun hx => dyo (mem_addrs_join.2 (.inl rfl)) hx
    have duo : (addrs o).Disjoint (addrs u) := fun z ho hu => dyo (mem_addrs_join.2 (.inr (.inr hu))) ho
    obtain ⟨m', h', -, -, own, off⟩ := setItem_owns cellx oo ou xo xu d duo no nu
    rw [mk_flip] at own
    refine ⟨[], x, u, m', some v.core.1, by rw [plug_nil, join_flip], by simp [Avl.Along],
      .of_forall fun n => ?_, own rfl, ?_⟩
    · simp only at cell cellx
      simp [takeReplacement, cell, cellx, h']
    · intro z hz ho
      exact off z (fun e => hz (mem_addrs_join.2 (.inl e))) ho
  | some z =>
    obtain ⟨q, w, a, e, along, ret⟩ := descend_returns (d := s.flip) oi hi
    rw [join_flip] at e
    have along' : Avl.Along s.flip (q ++ [⟨x, s.flip, u⟩]) := forall_mem_append.2 ⟨along, by simp⟩
    have ey : join s.flip x inner u = plug (q ++ [⟨x, s.flip, u⟩]) (join s w a .nil) := by
      rw [plug_append, ← e]
      rfl
    obtain ⟨f, fs, hq⟩ : ∃ f fs, q ++ [⟨x, s.flip, u⟩] = f :: fs := exists_cons_of_ne_nil (by simp)
    rw [hq] at along' ey
    obtain ⟨cellw, m', h', own, off⟩ := takeInner v.core.2 v.height (above p)
      along' (ey ▸ h.owns) (ey ▸ h.nodup) (ey ▸ nt)
    refine ⟨f :: fs, w, a, m', _, ey, along', ?_, own, by rwa [ey]⟩
    obtain ⟨n, hn⟩ := ret
    refine ⟨n, fun k hk => ?_⟩
    simp only at cell cellx cellw
    rw [← ey, root_join] at h'
    have hd := hn k hk
    simp only at hd
    simp only [takeReplacement, cell, cellx, hi, hd, cellw, bind_eq_bind, bind_some,
      Cell.ofSides_child, Cell.ofSides_child_flip, Cell.ofSides_parent]
    have done := congrArg (Option.map fun m => (m, w.core.1)) h'
    simpa [map_eq_bind, bind_assoc] using done

theorem unlink_holds {b : Bucket δ} {s d : Side}
    {c : ITree δ} (h : Holds b (plug p (join s v c .nil))) (sides : ∀ f ∈ p.head?, d = f.side) :
    ∃ b' T, unlink b (above p) d (root c) = some b' ∧ Removed p (join s v c .nil) T ∧ Holds b' T ∧
      Untouched (addrs (plug p (join s v c .nil))) b.heap b'.heap := by
  obtain ⟨op, ot⟩ := owns_plug.1 h.owns
  obtain ⟨dt, dp, dtp⟩ := nodup_addrs_plug.1 h.nodup
  obtain ⟨np, nt⟩ := nonneg_plug.1 h.nonneg
  obtain ⟨-, oc, -⟩ := owns_join.1 ot
  obtain ⟨-, -, dc, -, -⟩ := nodup_addrs_join.1 dt
  have hin : ∀ x, x ∈ addrs (plug p c) → x ∈ addrs (plug p (join s v c .nil)) := by
    intro x
    rw [mem_addrs_plug, mem_addrs_plug, mem_addrs_join]
    tauto
  obtain ⟨b₁, h₁, hold₁, off₁⟩ := attach_holds (r := b.root) op oc
    (nodup_addrs_plug.2 ⟨dc, dp, fun x hx hp => dtp (mem_addrs_join.2 (.inr (.inl hx))) hp⟩)
    (nonneg_plug.2 ⟨np, (nonneg_join.1 nt).2.1⟩) sides (by
      rintro f fs rfl
      exact h.root_eq.trans (root_plug_cons f fs _ _))
  have h₁' : attach b (above p) d (root c) = some b₁ := h₁
  have off : Untouched (addrs (plug p (join s v c .nil))) b.heap b₁.heap := fun x hx => off₁ x fun hx' => hx (hin x hx')
  cases p with
  | nil =>
    refine ⟨b₁, c, ?_, .root s v c, hold₁, off⟩
    rw [unlink, h₁']
    rfl
  | cons f fs =>
    rw [plug_refreshTop] at hold₁
    obtain ⟨b₂, T, h₂, step, hold₂, off₂⟩ := balanceTree_holds hold₁ (root_mk _ _ _ _)
    refine ⟨b₂, T, ?_, .below s v c step, hold₂, off.trans fun x hx => off₂ x fun hx' => ?_⟩
    · rw [unlink, h₁']
      exact h₂
    · rw [← plug_refreshTop, addrs, cores_refreshTop, ← addrs] at hx'
      exact hx (hin x hx')

theorem replace_holds {b : Bucket δ} {s d : Side}
    {y o : ITree δ} (h : Holds b (plug p (join s v y o))) (ny : y ≠ .nil) (no : o ≠ .nil)
    (side : s = pick (join s v y o)) (sides : ∀ f ∈ p.head?, d = f.side) : ∃ b' T, Returns (fun fuel => do
        let (m, replacement) ← takeReplacement fuel s b.heap v.core.1
        let b ← attach { b with heap := m } (above p) d (some replacement)
        balanceTree b replacement) b' ∧
      Removed p (join s v y o) T ∧ Holds b' T ∧
      Untouched (addrs (plug p (join s v y o))) b.heap b'.heap := by
  obtain ⟨q, w, a, m, par, rfl, along, ret, own, off⟩ := takeReplacement_returns h ny
  obtain ⟨op, ot⟩ := owns_plug.1 h.owns
  obtain ⟨dt, dp, dtp⟩ := nodup_addrs_plug.1 h.nodup
  obtain ⟨np, nt⟩ := nonneg_plug.1 h.nonneg
  obtain ⟨-, nny, nno⟩ := nonneg_join.1 nt
  have same : ∀ x, x ∈ addrs (merged s q w.core a o) ↔ x ∈ addrs (plug q (join s w a .nil)) ∨ x ∈ addrs o := by
    intro x
    rw [merged, mk, mem_addrs_join, addrs, cores_refreshTop, ← addrs, mem_addrs_plug, mem_addrs_plug, mem_addrs_join]
    simp only [addrs_nil, not_mem_nil, or_false]
    tauto
  have inside : ∀ x ∈ addrs (merged s q w.core a o), x ∈ addrs (join s v (plug q (join s w a .nil)) o) := fun x hx =>
    mem_addrs_join.2 (.inr ((same x).1 hx))
  have dm : (addrs (merged s q w.core a o)).Nodup := by
    rw [addrs, cores_merged (v := v) along, belowRoot, map_append]
    obtain ⟨t, e⟩ : ∃ t, t = join s v (plug q (join s w a .nil)) o := ⟨_, rfl⟩
    rw [← e] at dt ⊢
    cases t with
    | nil => exact nodup_nil
    | node x l r =>
      simp only [addrs, cores_node, map_append, map_cons] at dt
      exact dt.sublist ((sublist_cons_self _ _).append_left _)
  have op' : OwnsPath m p (some v.core.1) := by
    rw [root_join] at op
    apply op.frame
    intro x hx
    refine off x (fun hy => ?_) fun ho => ?_
    · exact dtp (mem_addrs_join.2 (.inr (.inl hy))) hx
    · exact dtp (mem_addrs_join.2 (.inr (.inr ho))) hx
  obtain ⟨b₁, h₁, hold₁, off₁⟩ := attach_holds (r := b.root) op' own
    (nodup_addrs_plug.2 ⟨dm, dp, fun x hx hp => dtp (inside x hx) hp⟩)
    (nonneg_plug.2 ⟨np, nonneg_merged nny nno⟩) sides (by
      rintro f fs rfl
      exact h.root_eq.trans (root_plug_cons f fs _ _))
  obtain ⟨b₂, T, h₂, step, hold₂, off₂⟩ := balanceTree_holds hold₁ (root_mk _ _ _ _)
  refine ⟨b₂, T, ?_, .both no side along step, hold₂, ?_⟩
  · refine ret.bind (.of_forall fun n => ?_)
    rw [merged, root_mk] at h₁
    simp only [h₁, bind_eq_bind, bind_some]
    exact h₂
  · intro x hx
    rw [mem_addrs_plug, mem_addrs_join] at hx
    have hx' : x ∉ addrs (plug p (merged s q w.core a o)) := by
      rw [mem_addrs_plug, same]
      tauto
    have hx'' := hx'
    rw [addrs, ← cores_refreshTop, ← addrs] at hx''
    rw [off₂ x hx'', off₁ x hx', off x (by tauto) (by tauto)]

theorem deleteItem_links {hash : Hash δ} {i : ℕ}
    {l r : ITree δ} (h : Holds ⟨hash.heap, hash.items i⟩ (plug p (.node v l r))) :
    ∃ b t, Returns (fun fuel => deleteItem fuel hash v.core.1 i) { hash with
          heap := update b.heap v.core.1 none
          items := update hash.items i b.root
          count := hash.count - 1 } ∧
      Removed p (.node v l r) t ∧ Holds b t ∧
      Untouched (addrs (plug p (.node v l r))) hash.heap b.heap := by
  obtain ⟨op, ot⟩ := owns_plug.1 h.owns
  obtain ⟨-, -, dtp⟩ := nodup_addrs_plug.1 h.nodup
  have hv : v.core.1 ∉ around p := fun hp => dtp (mem_addrs_join (s := .left).2 (.inl rfl)) hp
  obtain ⟨d, hd, sides⟩ := parentSide_eq op hv
  have cell := ot.1
  simp only at cell hd
  by_cases hl : l = .nil
  · subst hl
    have h' : Holds ⟨hash.heap, hash.items i⟩ (plug p (join .right v r .nil)) := h
    obtain ⟨b, t, hb, removed, hold, off⟩ := unlink_holds h' sides
    refine ⟨b, t, .of_forall fun n => ?_, removed, hold, off⟩
    cases r with
    | nil | node x a c =>
      simp only [deleteItem, cell, hd, root, bind_eq_bind, bind_some] at hb ⊢
      rw [hb]
      rfl
  by_cases hr : r = .nil
  · subst hr
    have h' : Holds ⟨hash.heap, hash.items i⟩ (plug p (join .left v l .nil)) := h
    obtain ⟨b, t, hb, removed, hold, off⟩ := unlink_holds h' sides
    refine ⟨b, t, .of_forall fun n => ?_, removed, hold, off⟩
    cases l with
    | nil => exact absurd rfl hl
    | node x a c =>
      simp only [deleteItem, cell, hd, root, bind_eq_bind, bind_some] at hb ⊢
      rw [hb]
      rfl
  -- two children
  have balance := getBalanceItem_eq ot
  simp only at balance
  obtain ⟨s, hs⟩ : ∃ s, s = pick (.node v l r) := ⟨_, rfl⟩
  have hs' : (if ht l - ht r > 0 then Side.left else .right) = s := hs.symm
  have e := join_child s v l r
  obtain ⟨b, t, ret, removed, hold, off⟩ := replace_holds (e.symm ▸ h)
    (by cases s; exacts [hl, hr]) (by cases s; exacts [hr, hl]) (e.symm ▸ hs) sides
  rw [e] at removed off
  refine ⟨b, t, ?_, removed, hold, off⟩
  obtain ⟨n, hn⟩ := ret
  refine ⟨n, fun k hk => ?_⟩
  have hk' := hn k hk
  obtain ⟨x, hx⟩ := exists_root hl
  obtain ⟨y, hy⟩ := exists_root hr
  rw [hx, hy] at cell
  simp only [deleteItem, cell, hd, balance, hs', bind_eq_bind, bind_some] at hk' ⊢
  -- the rest of the function only frees the item
  have done := congrArg (Option.map fun b : Bucket δ =>
    ({ hash with
      heap := update b.heap v.core.1 none
      items := update hash.items i b.root
      count := hash.count - 1 } : Hash δ)) hk'
  simpa [map_eq_bind, bind_assoc] using done

theorem Removed.mem_cores {l r t : ITree δ} (removed : Removed p (.node v l r) t)
    (nonneg : Nonneg (plug p (.node v l r)))
    (nodup : (addrs (plug p (.node v l r))).Nodup) (c : Addr × Core δ) :
    c ∈ cores t ↔ c ∈ cores (plug p (.node v l r)) ∧ c.1 ≠ v.core.1 := by
  have split : cores (plug p (.node v l r)) =
      ((before p).map Label.core ++ cores l) ++ v.core :: (cores r ++ (after p).map Label.core) := by
    simp [cores_plug]
  have new : cores t = ((before p).map Label.core ++ cores l) ++ (cores r ++ (after p).map Label.core) := by
    rw [removed.cores_eq nonneg]
    simp [belowRoot, child]
  have away : c ∈ cores t → c.1 ≠ v.core.1 := by
    rw [addrs, split, map_append, map_cons, nodup_middle, nodup_cons, ← map_append, ← new] at nodup
    intro hc e
    exact nodup.1 (e ▸ mem_map_of_mem hc)
  rw [split]
  constructor
  · intro hc
    refine ⟨?_, away hc⟩
    rw [new] at hc
    simp only [mem_append, mem_cons] at hc ⊢
    tauto
  · rintro ⟨hc, ne⟩
    rw [new]
    have hne : c ≠ v.core := fun e => ne (congrArg Prod.fst e)
    simp only [mem_append, mem_cons] at hc ⊢
    tauto

section

variable [LinearOrder κ] (cb : Callbacks κ δ)

def RepairsLocally (hash : Hash δ) (chosen : Addr × Core δ → Prop) : Prop :=
  ∀ T, Rep cb hash T → ∀ i < hash.hashsize, ∀ p v l r, T i = plug p (.node v l r) →
    chosen v.core → LocalRepair p (.node v l r)

theorem deleteItem_returns {hash : Hash δ} {T : ℕ → ITree δ} (rep : Rep cb hash T) {i : ℕ}
    (hi : i < hash.hashsize) {l r : ITree δ} (he : T i = plug p (.node v l r)) :
    ∃ hash' t, Returns (fun fuel => deleteItem fuel hash v.core.1 i) hash' ∧
      hash'.hashsize = hash.hashsize ∧ hash'.removeitems = hash.removeitems ∧
      Rep cb hash' (update T i t) ∧ Removed p (.node v l r) t ∧
      Splice cb (keyOf cb v.core) none (datas (T i)) (datas t) := by
  have hold := rep.holds i hi
  have sorted := rep.sorted i hi
  rw [he] at hold sorted
  obtain ⟨b, t, ret, removed, hold', off⟩ := deleteItem_links hold
  have mem := Removed.mem_cores removed hold.nonneg hold.nodup
  have hin : ∀ a ∈ addrs t, a ∈ addrs (plug p (.node v l r)) ∧ a ≠ v.core.1 := by
    intro a ha
    obtain ⟨c, hc, rfl⟩ := mem_map.1 ha
    obtain ⟨hc', ne⟩ := (mem c).1 hc
    exact ⟨mem_map_of_mem hc', ne⟩
  have entries : Splice cb (keyOf cb v.core) none (datas (T i)) (datas t) := by
    rw [he]
    have new : datas t = ((before p).map (fun v => v.core.2.data) ++ datas l) ++
        (none : Option δ).toList ++ (datas r ++ (after p).map fun v => v.core.2.data) := by
      simp [datas, removed.cores_eq hold.nonneg, belowRoot, child, Function.comp_def]
    rw [new]
    exact splice_node cb sorted (by simp)
  have len : (datas (T i)).length = (datas t).length + 1 := by
    rw [he]
    simp [datas, removed.cores_eq hold.nonneg, belowRoot, child, cores_plug]
    omega
  have pos : (datas (T i)).length ≤ hash.count := by
    rw [rep.count_eq]
    exact Finset.single_le_sum (f := fun j => (datas (T j)).length) (fun _ _ => Nat.zero_le _)
      (Finset.mem_range.2 hi)
  refine ⟨_, t, ret, rfl, rfl, ?_, removed, entries⟩
  refine rep.splice cb hi (b := ⟨update b.heap v.core.1 none, b.root⟩) ?_
    ?_ ?_ rfl rfl rfl le_rfl ?_ (rep.placed i hi v.core.2.data (by rw [he]; simp [datas_plug])) entries
  · refine ⟨hold'.root_eq, hold'.owns.frame fun a ha => ?_, hold'.nodup, hold'.nonneg⟩
    exact update_of_ne (hin a ha).2 _ _
  · intro a ha
    rw [he]
    exact .inl (hin a ha).1
  · intro a ha _
    rw [he] at ha
    refine (update_of_ne ?_ _ _).trans (off a ha)
    rintro rfl
    exact ha (mem_addrs_plug.2 (.inl (mem_addrs_join (s := .left).2 (.inl rfl))))
  · simp only
    omega

end

end OpenWifi.CapwapHash
