import OpenWifi.Lib.Avl

/-!
# Removing a node with one rebalancing step

A node with at most one child is replaced by that child, a node with two children by its neighbour from the higher
subtree; then one node is rebalanced.  `Removed p t T` is the outcome for arbitrary stored heights, and
`Removed.isAvl_iff` says when it is an AVL tree again.
-/

namespace OpenWifi.Avl

open Zipper

variable {κ : Type*}

inductive Rebalanced (p : Path (Label κ)) (t : HTree κ) : HTree κ → Prop
  | stay (level : RootBalanced t) : Rebalanced p t (plug p t)
  | turn (s : Side) (heavy : 1 < lean s t) :
      Rebalanced p t (plug (refreshTop (lift s t) p) (lift s t))

theorem Rebalanced.cores_eq {p : Path (Label κ)} {t T : HTree κ} (h : Rebalanced p t T)
    (hn : Nonneg t) : cores T = cores (plug p t) := by
  cases h with
  | stay level => rfl
  | turn s heavy =>
    rw [cores_refreshTop]
    exact cores_plug_congr (cores_lift (heavyForm hn heavy)) p

/-- Every frame of the path lies on side `s`. -/
def Along (s : Side) (q : Path (Label κ)) : Prop := ∀ f ∈ q, f.side = s

def pick (t : HTree κ) : Side := if 0 < lean .left t then .left else .right

theorem lean_pick (t : HTree κ) : 0 ≤ lean (pick t) t := by
  unfold pick
  split_ifs with h
  · exact le_of_lt h
  · rw [show Side.right = Side.flip .left from rfl, lean_flip]
    omega

/-- The subtree that takes the place of a node with two children: the neighbour `c`, found at the end of the path `q`,
with what is left of the subtree. -/
def merged (s : Side) (q : Path (Label κ)) (c : κ) (a o : HTree κ) : HTree κ :=
  mk s c (plug (refreshTop a q) a) o

inductive Removed : Path (Label κ) → HTree κ → HTree κ → Prop
  | root (s : Side) (v : Label κ) (c : HTree κ) : Removed [] (join s v c .nil) c
  | below {f : Frame (Label κ)} {fs : Path (Label κ)} {T : HTree κ} (s : Side) (v : Label κ)
      (c : HTree κ) (rest : Rebalanced fs (mk f.side f.value.core c f.sibling) T) :
      Removed (f :: fs) (join s v c .nil) T
  | both {p : Path (Label κ)} {s : Side} {v w : Label κ} {q : Path (Label κ)} {a o T : HTree κ}
      (ne : o ≠ .nil) (side : s = pick (join s v (plug q (join s w a .nil)) o))
      (along : Along s.flip q)
      (rest : Rebalanced (refreshTop (merged s q w.core a o) p) (merged s q w.core a o) T) :
      Removed p (join s v (plug q (join s w a .nil)) o) T

variable {q : Path (Label κ)} {s : Side}

theorem cores_plug_along (along : Along s.flip q) :
    ∃ l, ∀ t, cores (plug q t) = match s with
      | .left => l ++ cores t
      | .right => cores t ++ l := by
  cases s with
  | left =>
    refine ⟨(before q).map Label.core, fun t => ?_⟩
    have h : after q = [] := by
      induction q with
      | nil => rfl
      | cons f fs ih =>
        have hf : f.side = .right := along f List.mem_cons_self
        rw [after, hf]
        exact ih fun g hg => along g (List.mem_cons_of_mem _ hg)
    rw [cores_plug, h]
    simp
  | right =>
    refine ⟨(after q).map Label.core, fun t => ?_⟩
    have h : before q = [] := by
      induction q with
      | nil => rfl
      | cons f fs ih =>
        have hf : f.side = .left := along f List.mem_cons_self
        rw [before, hf]
        exact ih fun g hg => along g (List.mem_cons_of_mem _ hg)
    rw [cores_plug, h]
    simp

theorem nonneg_merged {w : Label κ} {a o : HTree κ}
    (hn : Nonneg (plug q (join s w a .nil))) (ho : Nonneg o) : Nonneg (merged s q w.core a o) := by
  obtain ⟨hq, hw⟩ := nonneg_plug.1 hn
  have ha : Nonneg (plug q a) := nonneg_plug.2 ⟨hq, (nonneg_join.1 hw).2.1⟩
  exact ha.refreshTop.mk ho

def belowRoot (t : HTree κ) : List κ := cores (child .left t) ++ cores (child .right t)

theorem cores_merged {v w : Label κ} {a o : HTree κ} (along : Along s.flip q) :
    cores (merged s q w.core a o) = belowRoot (join s v (plug q (join s w a .nil)) o) := by
  obtain ⟨l, hl⟩ := cores_plug_along along
  have ha := (cores_refreshTop a q a).trans (hl a)
  have hw := hl (join s w a .nil)
  cases s
  · rw [merged, mk, cores_join_left, ha, belowRoot, join, child, child]
    simp only [hw, cores_join_left, cores_nil]
    simp
  · rw [merged, mk, cores_join_right, ha, belowRoot, join, child, child]
    simp only [hw, cores_join_right, cores_nil]
    simp

theorem belowRoot_single (s : Side) (v : Label κ) (c : HTree κ) : belowRoot (join s v c .nil) = cores c := by
  cases s <;> simp [belowRoot, join, child]

theorem Removed.cores_eq {p : Path (Label κ)} {t T : HTree κ} (h : Removed p t T) (hn : Nonneg (plug p t)) :
    cores T = (before p).map Label.core ++ belowRoot t ++ (after p).map Label.core := by
  obtain ⟨hp, ht'⟩ := nonneg_plug.1 hn
  cases h with
  | root s v c => simp [belowRoot_single, before, after]
  | @below f fs _ s v c rest =>
    have hm := (nonneg_join.1 ht').2.1.mk (s := f.side) (c := f.value.core)
      (hp f List.mem_cons_self).2
    rw [rest.cores_eq hm, ← plug_refreshTop, cores_refreshTop, cores_plug, belowRoot_single]
  | @both _ s v w q a o _ ne side along rest =>
    obtain ⟨-, hy, ho⟩ := nonneg_join.1 ht'
    rw [rest.cores_eq (nonneg_merged hy ho), cores_refreshTop, cores_plug, cores_merged along]

/-- The path to the free place at the end of side `d`. -/
def spine (d : Side) : HTree κ → Path (Label κ)
  | .nil => []
  | .node v l r => match d with
    | .left => spine .left l ++ [⟨v, .left, r⟩]
    | .right => spine .right r ++ [⟨v, .right, l⟩]

theorem spine_join (d : Side) (v : Label κ) (t u : HTree κ) : spine d (join d v t u) = spine d t ++ [⟨v, d, u⟩] := by
  cases d <;> rfl

theorem spine_plug {d : Side} (along : Along d q) (t : HTree κ) : spine d (plug q t) = spine d t ++ q := by
  induction q generalizing t with
  | nil => simp
  | cons f fs ih =>
    obtain ⟨v, s, u⟩ := f
    obtain rfl : s = d := along _ List.mem_cons_self
    rw [plug_cons, ih (fun g hg => along g (List.mem_cons_of_mem _ hg)), Frame.fill, spine_join]
    simp

/-! ## When one step is enough -/

/-- The sibling of the position is as high as `h`. -/
def EvenAbove : Path (Label κ) → ℤ → Prop
  | [], _ => True
  | f :: _, h => ht f.sibling = h

/-- A subtree that drops from height `h` by one level is made good by refreshing its parent. -/
def ParentAbsorbs : Path (Label κ) → ℤ → Prop
  | [], _ => True
  | f :: fs, h => ht f.sibling = h ∨ ht f.sibling + 1 = h ∧ EvenAbove fs (h + 1)

/-- A subtree that drops from height `h` by one level is made good by refreshing its parent and
rebalancing it. -/
def ParentRepairs : Path (Label κ) → ℤ → Prop
  | [], _ => True
  | f :: fs, h => ParentAbsorbs (f :: fs) h ∨
      ht f.sibling = h + 1 ∧ (lean .left f.sibling = 0 ∨ ParentAbsorbs fs (h + 2))

/-- The subtree around the path gets lower when the end of the path drops from height `h`. -/
def Shrinks : Path (Label κ) → ℤ → Prop
  | [], _ => True
  | [f], h => ht f.sibling + 1 = h
  | _, _ => False

/-- For a node with two children whose neighbour stands at the end of the spine: its old parent absorbs the loss, and so
does the parent of the removed node if needed. -/
def NeighbourRepairs (p : Path (Label κ)) (h hy ho : ℤ) : Path (Label κ) → Prop
  | [] => True
  | e :: q => ParentAbsorbs q e.value.height ∧ (Shrinks q e.value.height → ho = hy ∨ ParentAbsorbs p h)

/-- The condition, on an AVL tree, under which removing the root of the subtree at a position with
one rebalancing step leaves an AVL tree. -/
def LocalRepair (p : Path (Label κ)) (t : HTree κ) : Prop :=
  (child .left t = .nil ∨ child .right t = .nil → ParentRepairs p (ht t)) ∧
    (child .left t ≠ .nil → child .right t ≠ .nil →
      NeighbourRepairs p (ht t) (ht (child (pick t) t)) (ht (child (pick t).flip t))
        (spine (pick t).flip (child (pick t) t)))

section

variable {p : Path (Label κ)} {t : HTree κ} {h : ℤ} (fits : Fits p h) (stored : Stored p h)

include fits stored

theorem isAvl_plug_same (avl : IsAvl t) (same : ht t = h) : IsAvl (plug p t) ∧ IsAvl (plug (refreshTop t p) t) := by
  subst same
  refine ⟨isAvl_plug.2 ⟨avl, fits, stored⟩, ?_⟩
  cases p with
  | nil => exact avl
  | cons f fs =>
    obtain ⟨hs, hb, hf⟩ := fits
    obtain ⟨hv, hst⟩ := stored
    rw [plug_refreshTop, isAvl_plug, isAvl_mk, ht_mk]
    exact ⟨⟨hb, avl, hs⟩, hf, hv ▸ hst⟩

theorem isAvl_plug_lower (avl : IsAvl t) (lower : ht t + 1 = h) : IsAvl (plug p t) ↔ EvenAbove p h := by
  cases p with
  | nil => simpa [EvenAbove] using avl
  | cons f fs =>
    obtain ⟨hs, hb, hf⟩ := fits
    obtain ⟨hv, hst⟩ := stored
    rw [isAvl_plug, EvenAbove, Fits, Stored]
    constructor
    · rintro ⟨-, ⟨-, hb', -⟩, hv', -⟩
      omega
    · intro even
      have e : max (ht t) (ht f.sibling) + 1 = max h (ht f.sibling) + 1 := by omega
      rw [e]
      exact ⟨avl, ⟨hs, by omega, hf⟩, hv, hst⟩

theorem isAvl_refreshTop_lower (avl : IsAvl t) (lower : ht t + 1 = h) :
    IsAvl (plug (refreshTop t p) t) ↔ ParentAbsorbs p h := by
  cases p with
  | nil => simpa [ParentAbsorbs] using avl
  | cons f fs =>
    obtain ⟨hs, hb, hf⟩ := fits
    obtain ⟨hv, hst⟩ := stored
    rw [plug_refreshTop, ParentAbsorbs]
    by_cases low : ht f.sibling = h + 1
    · -- the parent is out of balance and nothing rotates it
      have bad : ¬ IsAvl (plug fs (mk f.side f.value.core t f.sibling)) := by
        intro ha
        have := (isAvl_mk.1 (isAvl_plug.1 ha).1).1
        omega
      refine iff_of_false bad ?_
      omega
    have ha : IsAvl (mk f.side f.value.core t f.sibling) := isAvl_mk.2 ⟨by omega, avl, hs⟩
    have hm : ht (mk f.side f.value.core t f.sibling) = max (ht t) (ht f.sibling) + 1 := ht_mk _ _ _ _
    rw [hv] at hst
    by_cases even : ht f.sibling = h
    · refine iff_of_true ?_ (.inl even)
      exact (isAvl_plug_same hf hst ha (by omega)).1
    · have hh : max h (ht f.sibling) + 1 = h + 1 := by omega
      rw [hh] at hf hst
      rw [isAvl_plug_lower hf hst ha (by omega)]
      constructor
      · intro above
        exact .inr ⟨by omega, above⟩
      · rintro (e | ⟨-, above⟩)
        · exact absurd e even
        · exact above

end

theorem lean_eq_zero (s : Side) (t : HTree κ) : lean s t = 0 ↔ lean .left t = 0 := by
  cases s
  · rfl
  · rw [show Side.right = Side.flip .left from rfl, lean_flip, neg_eq_zero]

theorem localRepair_single {p : Path (Label κ)} {v : Label κ} {c : HTree κ} :
    LocalRepair p (join s v c .nil) ↔ ParentRepairs p v.height := by
  rw [LocalRepair, ht_join]
  cases s <;> simp [join, child]

theorem localRepair_both {p : Path (Label κ)} {v w : Label κ}
    {a o : HTree κ} (ne : o ≠ .nil) (side : s = pick (join s v (plug q (join s w a .nil)) o)) (along : Along s.flip q) :
    LocalRepair p (join s v (plug q (join s w a .nil)) o) ↔ ParentAbsorbs q w.height ∧
        (Shrinks q w.height → ht o = ht (plug q (join s w a .nil)) ∨ ParentAbsorbs p v.height) := by
  have hy : plug q (join s w a .nil) ≠ .nil := plug_ne_nil q (join_ne_nil _ _ _ _)
  have hspine : spine s.flip (plug q (join s w a .nil)) = ⟨w, s.flip, a⟩ :: q := by
    rw [spine_plug along, ← join_flip, spine_join]
    rfl
  generalize plug q (join s w a .nil) = y at *
  rw [LocalRepair, ← side, child_join, child_flip_join, hspine, ht_join, NeighbourRepairs]
  cases s <;> simp [join, child, ne, hy]

theorem ht_plug_cons (f : Frame (Label κ)) (fs : Path (Label κ)) (t u : HTree κ) :
    ht (plug (f :: fs) t) = ht (plug (f :: fs) u) := by
  induction fs generalizing f t u with
  | nil => simp [Frame.fill]
  | cons g gs ih => exact ih g (f.fill t) (f.fill u)

theorem ht_taken {w : Label κ} {a : HTree κ} (avl : IsAvl (plug q (join s w a .nil))) :
    (Shrinks q w.height ∧ ht (plug (refreshTop a q) a) + 1 = ht (plug q (join s w a .nil))) ∨
      (¬ Shrinks q w.height ∧ ht (plug (refreshTop a q) a) = ht (plug q (join s w a .nil))) := by
  obtain ⟨hw, fits, stored⟩ := isAvl_plug.1 avl
  obtain ⟨hh, -, ha, -⟩ := isAvl_join.1 hw
  have := ha.nonneg.ht_ge
  rw [ht_nil] at hh
  rw [ht_join] at fits stored
  match q with
  | [] => exact .inl ⟨trivial, by simp; omega⟩
  | [f] =>
    obtain ⟨-, hb, -⟩ := fits
    obtain ⟨hv, -⟩ := stored
    rw [plug_refreshTop, plug_nil, ht_mk, plug_cons, plug_nil, Frame.fill, ht_join, Shrinks]
    omega
  | f :: g :: gs =>
    refine .inr ⟨id, ?_⟩
    rw [plug_refreshTop, plug_cons]
    exact ht_plug_cons g gs _ _

theorem Removed.isAvl_iff {p : Path (Label κ)} {t T : HTree κ} (h : Removed p t T)
    (avl : IsAvl (plug p t)) : IsAvl T ↔ LocalRepair p t := by
  obtain ⟨at', fits, stored⟩ := isAvl_plug.1 avl
  cases h with
  | root s v c =>
    rw [localRepair_single]
    exact iff_of_true (isAvl_join.1 at').2.2.1 trivial
  | @below f fs T s v c rest =>
    obtain ⟨hv, -, hc, -⟩ := isAvl_join.1 at'
    have hc' := hc.nonneg.ht_ge
    rw [ht_nil] at hv
    have lower : ht c + 1 = v.height := by omega
    rw [ht_join] at fits stored
    rw [localRepair_single, ParentRepairs]
    cases rest with
    | stay level =>
      rw [rootBalanced_iff f.side, lean_mk] at level
      rw [← plug_refreshTop, isAvl_refreshTop_lower fits stored hc lower]
      constructor
      · exact .inl
      · rintro (ok | ⟨two, -⟩)
        · exact ok
        · omega
    | turn d heavy =>
      obtain ⟨hs, hb, hf⟩ := fits
      obtain ⟨hfv, hst⟩ := stored
      -- only the sibling can be the heavy side
      obtain rfl : d = f.side.flip := by
        rcases Side.eq_or_eq_flip f.side d with rfl | e
        · rw [lean_mk] at heavy; omega
        · exact e
      rw [lean_flip, lean_mk] at heavy
      have two : ht f.sibling = ht c + 2 := by omega
      have hH : max v.height (ht f.sibling) + 1 = v.height + 2 := by omega
      rw [hH] at hf hfv
      rw [hfv] at hst
      have e : mk f.side f.value.core c f.sibling = mk f.side.flip f.value.core f.sibling c := by
        rw [mk_flip]
      rw [e, mk]
      obtain ⟨hl, hh⟩ := isAvl_lift (s := f.side.flip)
        (x := ⟨f.value.core, max (ht f.sibling) (ht c) + 1⟩) hs hc two
      simp only [lean_eq_zero f.side.flip] at hh
      have none : ¬ ParentAbsorbs (f :: fs) v.height := by
        rw [ParentAbsorbs]
        omega
      by_cases level : lean .left f.sibling = 0
      · rw [if_pos level] at hh
        exact iff_of_true (isAvl_plug_same hf hst hl (by omega)).2
          (.inr ⟨by omega, .inl level⟩)
      · rw [if_neg level] at hh
        rw [isAvl_refreshTop_lower hf hst hl (by omega)]
        constructor
        · intro ok
          exact .inr ⟨by omega, .inr ok⟩
        · rintro (bad | ⟨-, bad | ok⟩)
          exacts [absurd bad none, absurd bad level, ok]
  | @both _ s v w q a o T ne side along rest =>
    obtain ⟨hv, hb, hy, ho⟩ := isAvl_join.1 at'
    obtain ⟨hw, qfits, qstored⟩ := isAvl_plug.1 hy
    obtain ⟨hwv, -, ha, -⟩ := isAvl_join.1 hw
    have ha' := ha.nonneg.ht_ge
    have high := lean_pick (join s v (plug q (join s w a .nil)) o)
    rw [← side, lean, child_join, child_flip_join] at high
    rw [ht_nil] at hwv
    rw [ht_join] at qfits qstored fits stored
    have inner := isAvl_refreshTop_lower qfits qstored ha (by omega)
    have taken := ht_taken hy
    rw [localRepair_both ne side along, ← inner]
    have hM : ht (merged s q w.core a o) = max (ht (plug (refreshTop a q) a)) (ht o) + 1 := ht_mk _ _ _ _
    cases rest with
    | turn d heavy =>
      -- taking the neighbour from the higher side never puts the new root out of balance
      exfalso
      rcases Side.eq_or_eq_flip s d with rfl | rfl
      · rw [merged, lean_mk] at heavy; omega
      · rw [merged, lean_flip, lean_mk] at heavy; omega
    | stay level =>
      by_cases ok : IsAvl (plug (refreshTop a q) a)
      · have hMa : IsAvl (merged s q w.core a o) := isAvl_mk.2 ⟨by omega, ok, ho⟩
        simp only [ok, true_and]
        by_cases same : ht (merged s q w.core a o) = v.height
        · refine iff_of_true (isAvl_plug_same fits stored hMa same).2 ?_
          intro shrinks
          rcases taken with ⟨-, h⟩ | ⟨no, -⟩
          · exact .inl (by omega)
          · exact absurd shrinks no
        · rw [isAvl_refreshTop_lower fits stored hMa (by omega)]
          have shrinks : Shrinks q w.height := by
            rcases taken with h | h
            · exact h.1
            · omega
          have uneven : ¬ ht o = ht (plug q (join s w a .nil)) := by omega
          simp [shrinks, uneven, false_or]
      · refine iff_of_false ?_ fun h => ok h.1
        intro hT
        exact ok (isAvl_mk.1 (isAvl_plug.1 hT).1).2.1

end OpenWifi.Avl
