import OpenWifi.Lib.Zipper
import Mathlib.Data.Prod.Lex
import Mathlib.Tactic.Ring

/-!
# Height-labelled trees and their rotations

Every node of an `HTree` stores a height, which need not be the real one: an operation that forgets to refresh an
ancestor leaves a stale height behind.
-/

namespace OpenWifi.Avl

open List Zipper

structure Label (κ : Type*) where
  core : κ
  height : ℤ
  deriving DecidableEq

abbrev HTree (κ : Type*) := BinaryTree (Label κ)

variable {κ : Type*}

/-- The stored height of the root; the empty tree counts as `-1`. -/
def ht : HTree κ → ℤ
  | .nil => -1
  | .node v _ _ => v.height

@[simp] theorem ht_nil : ht (.nil : HTree κ) = -1 := rfl

@[simp] theorem ht_join (s : Side) (v : Label κ) (t u : HTree κ) : ht (join s v t u) = v.height := by
  cases s <;> rfl

def cores (t : HTree κ) : List κ := (inorder t).map Label.core

@[simp] theorem cores_nil : cores (.nil : HTree κ) = [] := rfl

variable (v : Label κ)

@[simp] theorem cores_node (l r : HTree κ) : cores (.node v l r) = cores l ++ v.core :: cores r :=
  map_inorder_node ..

theorem cores_join_left (t u : HTree κ) : cores (join .left v t u) = cores t ++ v.core :: cores u := cores_node v t u

theorem cores_join_right (t u : HTree κ) : cores (join .right v t u) = cores u ++ v.core :: cores t := cores_node v u t

variable {s : Side} {t u : HTree κ}

theorem mem_cores_join {v : Label κ} {c : κ} : c ∈ cores (join s v t u) ↔ c = v.core ∨ c ∈ cores t ∨ c ∈ cores u := by
  cases s
  · simp only [cores_join_left, mem_append, mem_cons]; tauto
  · simp only [cores_join_right, mem_append, mem_cons]; tauto

/-- The node with core `c`, its height computed from the stored heights of its subtrees. -/
def mk (s : Side) (c : κ) (t u : HTree κ) : HTree κ := join s ⟨c, max (ht t) (ht u) + 1⟩ t u

@[simp] theorem ht_mk (s : Side) (c : κ) (t u : HTree κ) : ht (mk s c t u) = max (ht t) (ht u) + 1 := by
  simp [mk]

@[simp] theorem child_mk (s : Side) (c : κ) (t u : HTree κ) : child s (mk s c t u) = t := by
  simp [mk]

@[simp] theorem child_flip_mk (s : Side) (c : κ) (t u : HTree κ) : child s.flip (mk s c t u) = u := by
  simp [mk]

theorem mk_flip (s : Side) (c : κ) (t u : HTree κ) : mk s.flip c t u = mk s c u t := by
  rw [mk, mk, join_flip, max_comm]

@[simp] theorem mk_ne_nil (s : Side) (c : κ) (t u : HTree κ) : mk s c t u ≠ .nil := join_ne_nil _ _ _ _

def refresh : HTree κ → HTree κ
  | .nil => .nil
  | .node v l r => mk .left v.core l r

@[simp] theorem refresh_join (s : Side) (v : Label κ) (t u : HTree κ) : refresh (join s v t u) = mk s v.core t u := by
  cases s
  · rfl
  · exact (mk_flip .right v.core u t).symm ▸ rfl

@[simp] theorem refresh_mk (s : Side) (c : κ) (t u : HTree κ) : refresh (mk s c t u) = mk s c t u := by
  rw [mk, refresh_join]; rfl

/-- How much higher the subtree on side `s` is than the other one. -/
def lean (s : Side) (t : HTree κ) : ℤ := ht (child s t) - ht (child s.flip t)

theorem lean_flip (s : Side) (t : HTree κ) : lean s.flip t = -lean s t := by
  simp only [lean, Side.flip_flip]; ring

@[simp] theorem lean_mk (s : Side) (c : κ) (t u : HTree κ) : lean s (mk s c t u) = ht t - ht u := by
  simp [lean]

def RootBalanced (t : HTree κ) : Prop := -1 ≤ lean .left t ∧ lean .left t ≤ 1
  deriving Decidable

theorem rootBalanced_iff (s : Side) (t : HTree κ) : RootBalanced t ↔ -1 ≤ lean s t ∧ lean s t ≤ 1 := by
  cases s
  · rfl
  · rw [show Side.right = Side.flip .left from rfl, lean_flip, RootBalanced]
    omega

variable {t : HTree κ}

theorem not_rootBalanced (h : ¬ RootBalanced t) : ∃ s, 1 < lean s t := by
  unfold RootBalanced at h
  by_cases h1 : 1 < lean .left t
  · exact ⟨.left, h1⟩
  · refine ⟨.right, ?_⟩
    rw [show Side.right = Side.flip .left from rfl, lean_flip]
    omega

/-- Raise the child on the heavy side `s`: a single rotation, or a double one when that child
leans the other way. -/
def lift (s : Side) (t : HTree κ) : HTree κ :=
  match t, child s t with
  | .node x _ _, .node y l r =>
    let a := child s (.node y l r)
    let b := child s.flip (.node y l r)
    let c := child s.flip t
    if ht a < ht b then
      match b with
      | .nil => t
      | .node z _ _ => mk s z.core (mk s y.core a (child s b)) (mk s x.core (child s.flip b) c)
    else mk s y.core a (mk s x.core b c)
  | _, _ => t

theorem lift_single {x y : Label κ} {a b c : HTree κ} (h : ht b ≤ ht a) :
    lift s (join s x (join s y a b) c) = mk s y.core a (mk s x.core b c) := by
  cases s <;> simp [lift, join, child, not_lt.2 h]

theorem lift_double {x y z : Label κ} {a p q c : HTree κ} (h : ht a < z.height) :
    lift s (join s x (join s y a (join s z p q)) c) = mk s z.core (mk s y.core a p) (mk s x.core q c) := by
  cases s <;> simp [lift, join, child, show ∀ l r, ht (.node z l r) = z.height from fun _ _ => rfl, h]

def Nonneg (t : HTree κ) : Prop := ∀ v ∈ inorder t, 0 ≤ v.height

@[simp] theorem nonneg_nil : Nonneg (.nil : HTree κ) := by simp [Nonneg]

theorem nonneg_join {v : Label κ} : Nonneg (join s v t u) ↔ 0 ≤ v.height ∧ Nonneg t ∧ Nonneg u := by
  simp [Nonneg, mem_inorder_join, or_imp, forall_and, forall_eq]

theorem Nonneg.ht_ge (h : Nonneg t) : -1 ≤ ht t := by
  cases t with
  | nil => simp
  | node v l r => exact le_trans (by norm_num) (h v (by simp))

theorem Nonneg.mk {c : κ} (ht' : Nonneg t) (hu : Nonneg u) : Nonneg (mk s c t u) := by
  refine nonneg_join.2 ⟨?_, ht', hu⟩
  have := ht'.ht_ge
  have := le_max_left (ht t) (ht u)
  simp only
  omega

theorem Nonneg.refresh (h : Nonneg t) : Nonneg (refresh t) := by
  rcases eq_nil_or_join .left t with rfl | ⟨v, a, b, rfl⟩
  · exact h
  · rw [nonneg_join] at h
    rw [refresh_join]
    exact h.2.1.mk h.2.2

/-! ## Forms of a heavy tree -/

/-- The shape of a tree that is heavy on side `s`: the raised child exists, and so does its inner
child when that one is the higher of the two. -/
inductive HeavyForm (s : Side) : HTree κ → Prop
  | single (x y : Label κ) (a b c : HTree κ) (low : ht b ≤ ht a)
      (heavy : 1 < y.height - ht c) : HeavyForm s (join s x (join s y a b) c)
  | double (x y z : Label κ) (a p q c : HTree κ) (high : ht a < z.height)
      (heavy : 1 < y.height - ht c) : HeavyForm s (join s x (join s y a (join s z p q)) c)

theorem heavyForm (hn : Nonneg t) (h : 1 < lean s t) : HeavyForm s t := by
  rcases eq_nil_or_join s t with rfl | ⟨x, l, c, rfl⟩
  · simp [lean] at h
  simp only [lean, child_join, child_flip_join] at h
  obtain ⟨-, hl, hc⟩ := nonneg_join.1 hn
  have hc' := hc.ht_ge
  rcases eq_nil_or_join s l with rfl | ⟨y, a, b, rfl⟩
  · rw [ht_nil] at h; omega
  rw [ht_join] at h
  by_cases hab : ht b ≤ ht a
  · exact .single x y a b c hab h
  · have ha := (nonneg_join.1 hl).2.1.ht_ge
    rcases eq_nil_or_join s b with rfl | ⟨z, p, q, rfl⟩
    · rw [ht_nil] at hab; omega
    · rw [ht_join] at hab
      exact .double x y z a p q c (by omega) h

theorem cores_lift (h : HeavyForm s t) : cores (lift s t) = cores t := by
  cases h with
  | single x y a b c low _ =>
    rw [lift_single low]
    cases s <;> simp [mk, cores_join_left, cores_join_right]
  | double x y z a p q c high _ =>
    rw [lift_double high]
    cases s <;> simp [mk, cores_join_left, cores_join_right]

theorem Nonneg.lift (hn : Nonneg t) (h : HeavyForm s t) : Nonneg (lift s t) := by
  cases h with
  | single x y a b c low _ =>
    simp only [nonneg_join] at hn
    rw [lift_single low]
    exact hn.2.1.2.1.mk (hn.2.1.2.2.mk hn.2.2)
  | double x y z a p q c high _ =>
    simp only [nonneg_join] at hn
    rw [lift_double high]
    exact (hn.2.1.2.1.mk hn.2.1.2.2.2.1).mk (hn.2.1.2.2.2.2.mk hn.2.2)

theorem lift_ne_nil (h : HeavyForm s t) : lift s t ≠ .nil := by
  cases h with
  | single x y a b c low _ => rw [lift_single low]; exact mk_ne_nil _ _ _ _
  | double x y z a p q c high _ => rw [lift_double high]; exact mk_ne_nil _ _ _ _

theorem refresh_lift (h : HeavyForm s t) : refresh (lift s t) = lift s t := by
  cases h with
  | single x y a b c low _ => rw [lift_single low, refresh_mk]
  | double x y z a p q c high _ => rw [lift_double high, refresh_mk]

def stale : HTree κ → ℕ
  | .nil => 0
  | .node v l r => stale l + stale r + if v.height = max (ht l) (ht r) + 1 then 0 else 1

theorem stale_join (s : Side) (v : Label κ) (t u : HTree κ) :
    stale (join s v t u) = stale t + stale u + if v.height = max (ht t) (ht u) + 1 then 0 else 1 := by
  cases s
  · rfl
  · rw [join, stale, max_comm, Nat.add_comm (stale u)]

@[simp] theorem stale_mk (s : Side) (c : κ) (t u : HTree κ) : stale (mk s c t u) = stale t + stale u := by
  simp [mk, stale_join]

theorem lift_progress (hn : Nonneg t) (hr : refresh t = t) (h : HeavyForm s t) :
    stale (lift s t) < stale t ∨ stale (lift s t) ≤ stale t ∧ (RootBalanced (lift s t) ∨ ht (lift s t) < ht t) := by
  cases h with
  | single x y a b c low heavy =>
    have hx : x.height = max y.height (ht c) + 1 := by
      have := congrArg ht hr
      simpa using this.symm
    rw [lift_single low, rootBalanced_iff s]
    simp only [stale_mk, stale_join, ht_join, hx, if_true, ht_mk, lean_mk]
    by_cases hy : y.height = max (ht a) (ht b) + 1
    · -- the raised child is not stale, so its outer subtree is two higher than `c`
      right
      rw [if_pos hy]
      omega
    · left
      rw [if_neg hy]
      omega
  | double x y z a p q c high heavy =>
    have hx : x.height = max y.height (ht c) + 1 := by
      have := congrArg ht hr
      simpa using this.symm
    simp only [nonneg_join] at hn
    have hp := hn.2.1.2.2.2.1.ht_ge
    rw [lift_double high, rootBalanced_iff s]
    simp only [stale_mk, stale_join, ht_join, hx, if_true, ht_mk, lean_mk]
    by_cases hyz : y.height = max (ht a) z.height + 1 ∧ z.height = max (ht p) (ht q) + 1
    · right
      rw [if_pos hyz.1, if_pos hyz.2]
      omega
    · left
      rw [not_and_or] at hyz
      rcases hyz with hy | hz
      · rw [if_neg hy]; split_ifs <;> omega
      · rw [if_neg hz]; split_ifs <;> omega

/-! ## The climb -/

/-- Recompute the height of the nearest ancestor, with `t` at the position. -/
def refreshTop (t : HTree κ) : Path (Label κ) → Path (Label κ)
  | [] => []
  | f :: fs => { f with value := ⟨f.value.core, max (ht t) (ht f.sibling) + 1⟩ } :: fs

@[simp] theorem refreshTop_nil (t : HTree κ) : refreshTop t [] = [] := rfl

@[simp] theorem length_refreshTop (t : HTree κ) (p : Path (Label κ)) : (refreshTop t p).length = p.length := by
  cases p <;> rfl

theorem plug_refreshTop (t : HTree κ) (f : Frame (Label κ)) (fs : Path (Label κ)) :
    plug (refreshTop t (f :: fs)) t = plug fs (mk f.side f.value.core t f.sibling) := rfl

theorem cores_plug (p : Path (Label κ)) (t : HTree κ) :
    cores (plug p t) = (before p).map Label.core ++ cores t ++ (after p).map Label.core :=
  map_inorder_plug ..

theorem cores_plug_congr (h : cores t = cores u) (p : Path (Label κ)) : cores (plug p t) = cores (plug p u) :=
  map_inorder_plug_congr _ h p

theorem cores_refreshTop (u : HTree κ) (p : Path (Label κ)) (t : HTree κ) :
    cores (plug (refreshTop u p) t) = cores (plug p t) := by
  cases p with
  | nil => rfl
  | cons f fs =>
    rw [refreshTop, plug_cons, plug_cons]
    apply cores_plug_congr
    obtain ⟨v, s, w⟩ := f
    cases s <;> simp [Frame.fill, cores_join_left, cores_join_right]

theorem cores_refresh (t : HTree κ) : cores (refresh t) = cores t := by
  cases t with
  | nil => rfl
  | node v l r => simp [refresh, mk, join]

variable {p : Path (Label κ)}

theorem nonneg_plug : Nonneg (plug p t) ↔ (∀ f ∈ p, 0 ≤ f.value.height ∧ Nonneg f.sibling) ∧ Nonneg t := by
  induction p generalizing t with
  | nil => simp
  | cons f fs ih =>
    rw [plug_cons, ih, Frame.fill, nonneg_join]
    simp only [mem_cons, forall_eq_or_imp]
    tauto

theorem Nonneg.refreshTop (h : Nonneg (plug p t)) : Nonneg (plug (refreshTop t p) t) := by
  cases p with
  | nil => exact h
  | cons f fs =>
    rw [nonneg_plug] at h
    rw [plug_refreshTop, nonneg_plug]
    obtain ⟨hp, ht'⟩ := h
    exact ⟨fun g hg => hp g (mem_cons_of_mem _ hg), ht'.mk (hp f mem_cons_self).2⟩

/-- `Climb p t T`: visiting the root of `t` and then every ancestor, each visit refreshing the height and rotating once
if needed, ends with `T`.  After a rotation the raised root is visited next. -/
inductive Climb : Path (Label κ) → HTree κ → HTree κ → Prop
  | turn {p : Path (Label κ)} {t T : HTree κ} (s : Side) (heavy : 1 < lean s (refresh t))
      (rest : Climb (refreshTop (lift s (refresh t)) p) (lift s (refresh t)) T) : Climb p t T
  | up {f : Frame (Label κ)} {fs : Path (Label κ)} {t T : HTree κ} (ne : t ≠ .nil)
      (level : RootBalanced (refresh t)) (rest : Climb fs (f.fill (refresh t)) T) :
      Climb (f :: fs) t T
  | top {t : HTree κ} (ne : t ≠ .nil) (level : RootBalanced (refresh t)) : Climb [] t (refresh t)

theorem Climb.cores_eq {t T : HTree κ} (h : Climb p t T)
    (hn : Nonneg (plug p t)) : cores T = cores (plug p t) ∧ Nonneg T := by
  induction h with
  | @turn p t T s heavy _ ih =>
    have hr := (nonneg_plug.1 hn).2.refresh
    have form := heavyForm hr heavy
    have hl : Nonneg (plug p (lift s (refresh t))) := nonneg_plug.2 ⟨(nonneg_plug.1 hn).1, hr.lift form⟩
    obtain ⟨hc, hT⟩ := ih hl.refreshTop
    refine ⟨hc.trans ?_, hT⟩
    rw [cores_refreshTop]
    exact cores_plug_congr ((cores_lift form).trans (cores_refresh t)) p
  | @up f fs t T _ _ _ ih =>
    obtain ⟨hp, ht'⟩ := nonneg_plug.1 hn
    have hf : Nonneg (plug (f :: fs) (refresh t)) := nonneg_plug.2 ⟨hp, ht'.refresh⟩
    obtain ⟨hc, hT⟩ := ih hf
    exact ⟨hc.trans (cores_plug_congr (cores_refresh t) (f :: fs)), hT⟩
  | @top t _ _ => exact ⟨cores_refresh t, Nonneg.refresh hn⟩

private theorem refresh_refresh (t : HTree κ) : refresh (refresh t) = refresh t := by
  cases t with
  | nil => rfl
  | node v l r => exact refresh_mk _ _ _ _

theorem refresh_ne_nil (h : t ≠ .nil) : refresh t ≠ .nil := by
  cases t with
  | nil => exact absurd rfl h
  | node v l r => exact mk_ne_nil _ _ _ _

theorem Climb.of_refresh {t T : HTree κ} (h : Climb p (refresh t) T) (ne : t ≠ .nil) : Climb p t T := by
  obtain ⟨v, hv⟩ : ∃ v, v = refresh t := ⟨_, rfl⟩
  rw [← hv] at h
  cases h with
  | turn s heavy rest =>
    subst hv
    rw [refresh_refresh] at heavy rest
    exact .turn s heavy rest
  | up _ level rest =>
    subst hv
    rw [refresh_refresh] at level rest
    exact .up ne level rest
  | top _ level =>
    subst hv
    rw [refresh_refresh] at level ⊢
    exact .top ne level

inductive Settle : HTree κ → HTree κ → Prop
  | done {t : HTree κ} (level : RootBalanced t) : Settle t t
  | turn {t u : HTree κ} (s : Side) (heavy : 1 < lean s t) (rest : Settle (lift s t) u) : Settle t u

theorem exists_settle (hn : Nonneg t) (hr : refresh t = t) : ∃ u, Settle t u := by
  obtain ⟨m, hm⟩ : ∃ m : ℕ ×ₗ ℕ, m = toLex (stale t, (ht t + 1).toNat) := ⟨_, rfl⟩
  induction m using WellFoundedLT.induction generalizing t with
  | ind m ih =>
    by_cases level : RootBalanced t
    · exact ⟨t, .done level⟩
    obtain ⟨s, heavy⟩ := not_rootBalanced level
    have form := heavyForm hn heavy
    have hn' := hn.lift form
    by_cases level' : RootBalanced (lift s t)
    · exact ⟨_, .turn s heavy (.done level')⟩
    have smaller : toLex (stale (lift s t), (ht (lift s t) + 1).toNat) < m := by
      rw [hm, Prod.Lex.toLex_lt_toLex]
      rcases lift_progress hn hr form with lt | ⟨le, absurd_level | lower⟩
      · exact .inl lt
      · exact absurd absurd_level level'
      · have := hn'.ht_ge
        simp only
        omega
    obtain ⟨u, hu⟩ := ih _ smaller hn' (refresh_lift form) rfl
    exact ⟨u, .turn s heavy hu⟩

theorem Settle.exists_climb (h : Settle t u) (ne : t ≠ .nil) (hr : refresh t = t)
    (p : Path (Label κ)) (hn : Nonneg (plug p t))
    (rest : ∀ q : Path (Label κ), q.length = p.length → u ≠ .nil → refresh u = u → RootBalanced u →
      Nonneg (plug q u) → ∃ T, Climb q u T) : ∃ T, Climb p t T := by
  induction h generalizing p with
  | done level => exact rest p rfl ne hr level hn
  | @turn t u s heavy _ ih =>
    have form := heavyForm (nonneg_plug.1 hn).2 heavy
    have hl : Nonneg (plug p (lift s t)) := nonneg_plug.2 ⟨(nonneg_plug.1 hn).1, (nonneg_plug.1 hn).2.lift form⟩
    obtain ⟨T, hT⟩ := ih (lift_ne_nil form) (refresh_lift form) (refreshTop (lift s t) p)
      hl.refreshTop (fun q hq => rest q (hq.trans (length_refreshTop _ _)))
    exact ⟨T, .turn s (by rwa [hr]) (by rwa [hr])⟩

theorem exists_climb (p : Path (Label κ)) (t : HTree κ) (ne : t ≠ .nil) (hn : Nonneg (plug p t)) :
    ∃ T, Climb p t T := by
  obtain ⟨n, hlen⟩ : ∃ n, p.length = n := ⟨_, rfl⟩
  induction n using Nat.strong_induction_on generalizing p t with
  | _ n ih =>
    have hr := (nonneg_plug.1 hn).2.refresh
    obtain ⟨u, hu⟩ := exists_settle hr (refresh_refresh t)
    have rest : ∀ q : Path (Label κ), q.length = p.length → u ≠ .nil → refresh u = u →
        RootBalanced u → Nonneg (plug q u) → ∃ T, Climb q u T := by
      intro q hq hne hru level hnq
      cases q with
      | nil => exact ⟨_, .top hne (by rwa [hru])⟩
      | cons f fs =>
        have shorter : fs.length < n := by
          rw [← hlen, ← hq]
          exact Nat.lt_succ_self _
        obtain ⟨T, hT⟩ := ih fs.length shorter fs (f.fill u) (join_ne_nil _ _ _ _) hnq rfl
        exact ⟨T, .up hne (by rwa [hru]) (by rwa [hru])⟩
    obtain ⟨T, hT⟩ := hu.exists_climb (refresh_ne_nil ne) (refresh_refresh t) p
      (nonneg_plug.2 ⟨(nonneg_plug.1 hn).1, hr⟩) rest
    exact ⟨T, hT.of_refresh ne⟩

/-! ## AVL trees -/

def IsAvl : HTree κ → Prop
  | .nil => True
  | .node v l r => v.height = max (ht l) (ht r) + 1 ∧ (-1 ≤ ht l - ht r ∧ ht l - ht r ≤ 1) ∧ IsAvl l ∧ IsAvl r

@[simp] theorem isAvl_nil : IsAvl (.nil : HTree κ) := trivial

theorem isAvl_join {v : Label κ} : IsAvl (join s v t u) ↔ v.height = max (ht t) (ht u) + 1 ∧
      (-1 ≤ ht t - ht u ∧ ht t - ht u ≤ 1) ∧ IsAvl t ∧ IsAvl u := by
  cases s
  · rfl
  · rw [join, IsAvl, max_comm, and_comm (a := IsAvl u)]
    refine and_congr_right fun _ => and_congr_left fun _ => ?_
    omega

theorem isAvl_mk {c : κ} : IsAvl (mk s c t u) ↔ (-1 ≤ ht t - ht u ∧ ht t - ht u ≤ 1) ∧ IsAvl t ∧ IsAvl u := by
  rw [mk, isAvl_join]
  simp

theorem IsAvl.nonneg (h : IsAvl t) : Nonneg t := by
  induction t with
  | nil => exact nonneg_nil
  | node v l r ihl ihr =>
    obtain ⟨hv, -, hl, hr⟩ := h
    have := (ihl hl).ht_ge
    exact nonneg_join (s := .left).2 ⟨by omega, ihl hl, ihr hr⟩

theorem IsAvl.ht_eq (h : IsAvl t) : ht t = (t.height : ℤ) - 1 := by
  induction t with
  | nil => rfl
  | node v l r ihl ihr =>
    obtain ⟨hv, -, hl, hr⟩ := h
    have h1 := ihl hl
    have h2 := ihr hr
    simp only [ht, BinaryTree.height] at *
    push_cast
    omega

/-- Raising the child of a node that is two higher than its sibling restores the balance.  The tree
gets lower unless that child was level. -/
theorem isAvl_lift {x : Label κ} {l r : HTree κ} (hl : IsAvl l) (hr : IsAvl r) (two : ht l = ht r + 2) :
    IsAvl (lift s (join s x l r)) ∧ ht (lift s (join s x l r)) = if lean s l = 0 then ht l + 1 else ht l := by
  have hr' := hr.nonneg.ht_ge
  rcases eq_nil_or_join s l with rfl | ⟨y, a, b, rfl⟩
  · rw [ht_nil] at two; omega
  obtain ⟨hy, hab, ha, hb⟩ := isAvl_join.1 hl
  rw [ht_join] at two
  simp only [lean, child_join, child_flip_join, ht_join]
  by_cases low : ht b ≤ ht a
  · rw [lift_single low]
    simp only [isAvl_mk, ht_mk]
    refine ⟨⟨by omega, ha, by omega, hb, hr⟩, ?_⟩
    split_ifs <;> omega
  · have ha' := ha.nonneg.ht_ge
    rcases eq_nil_or_join s b with rfl | ⟨z, p, q, rfl⟩
    · rw [ht_nil] at low; omega
    obtain ⟨hz, hpq, hp, hq⟩ := isAvl_join.1 hb
    simp only [ht_join] at low hab hy ⊢
    rw [lift_double (by omega)]
    simp only [isAvl_mk, ht_mk]
    refine ⟨⟨by omega, ⟨by omega, ha, hp⟩, by omega, hq, hr⟩, ?_⟩
    split_ifs <;> omega

/-- The siblings along a path are AVL trees whose heights fit a subtree of height `h` at the
position. -/
def Fits : Path (Label κ) → ℤ → Prop
  | [], _ => True
  | f :: fs, h => IsAvl f.sibling ∧ (-1 ≤ h - ht f.sibling ∧ h - ht f.sibling ≤ 1) ∧ Fits fs (max h (ht f.sibling) + 1)

/-- The heights stored along a path are right for a subtree of height `h` at the position. -/
def Stored : Path (Label κ) → ℤ → Prop
  | [], _ => True
  | f :: fs, h => f.value.height = max h (ht f.sibling) + 1 ∧ Stored fs f.value.height

theorem isAvl_plug : IsAvl (plug p t) ↔ IsAvl t ∧ Fits p (ht t) ∧ Stored p (ht t) := by
  induction p generalizing t with
  | nil => simp [Fits, Stored]
  | cons f fs ih =>
    rw [plug_cons, ih, Frame.fill, isAvl_join, ht_join, Fits, Stored]
    constructor
    · rintro ⟨⟨hv, hb, ht', hs⟩, hf, hst⟩
      exact ⟨ht', ⟨hs, hb, hv ▸ hf⟩, hv, hst⟩
    · rintro ⟨ht', ⟨hs, hb, hf⟩, hv, hst⟩
      exact ⟨⟨hv, hb, ht', hs⟩, hv ▸ hf, hst⟩

theorem fits_refreshTop {h : ℤ} (hf : Fits p h) : Fits (refreshTop t p) h := by
  cases p with
  | nil => trivial
  | cons f fs => exact hf

/-- Both subtrees are AVL trees, and the node is as high as `h`, or one higher, or one rotation
away from that. -/
def Near (h : ℤ) (t : HTree κ) : Prop :=
  ∃ s v l r, t = join s v l r ∧ IsAvl l ∧ IsAvl r ∧
    ((-1 ≤ ht l - ht r ∧ ht l - ht r ≤ 1) ∧ (max (ht l) (ht r) + 1 = h ∨ max (ht l) (ht r) = h) ∨
      ht l = ht r + 2 ∧ ht l = h)

theorem near_of_isAvl {h : ℤ} (ne : t ≠ .nil) (ha : IsAvl t) (hh : ht t = h ∨ ht t = h + 1) : Near h t := by
  rcases eq_nil_or_join .left t with rfl | ⟨v, l, r, rfl⟩
  · exact absurd rfl ne
  obtain ⟨hv, hb, hl, hr⟩ := isAvl_join.1 ha
  rw [ht_join] at hh
  exact ⟨.left, v, l, r, rfl, hl, hr, .inl ⟨hb, by omega⟩⟩

theorem Near.isAvl_refresh {h : ℤ} (near : Near h t) (level : RootBalanced (refresh t)) :
    IsAvl (refresh t) ∧ (ht (refresh t) = h ∨ ht (refresh t) = h + 1) := by
  obtain ⟨s, v, l, r, rfl, hl, hr, near⟩ := near
  rw [refresh_join] at level ⊢
  rw [rootBalanced_iff s, lean_mk] at level
  rw [isAvl_mk, ht_mk]
  exact ⟨⟨level, hl, hr⟩, by omega⟩

theorem Climb.isAvl {t T : HTree κ} (h : Climb p t T) {n : ℤ} (fits : Fits p n) (near : Near n t) : IsAvl T := by
  induction h generalizing n with
  | @turn p t T s heavy _ ih =>
    obtain ⟨d, v, l, r, rfl, hl, hr, near⟩ := near
    rw [refresh_join] at heavy ih
    -- the balanced case and the case of the wrong side contradict `heavy`
    have hd : s = d := by
      rcases Side.eq_or_eq_flip d s with rfl | rfl
      · rfl
      · rw [lean_flip, lean_mk] at heavy; omega
    subst hd
    rw [lean_mk] at heavy
    have two : ht l = ht r + 2 ∧ ht l = n := by omega
    obtain ⟨ha, hh⟩ := isAvl_lift (s := s) (x := ⟨v.core, max (ht l) (ht r) + 1⟩) hl hr two.1
    have form : HeavyForm s (mk s v.core l r) := by
      apply heavyForm (hl.nonneg.mk hr.nonneg)
      rw [lean_mk]
      exact heavy
    refine ih (fits_refreshTop fits) (near_of_isAvl (lift_ne_nil form) ha ?_)
    rw [mk, hh]
    split_ifs <;> omega
  | @up f fs t T ne level _ ih =>
    obtain ⟨ha, hh⟩ := near.isAvl_refresh level
    obtain ⟨hs, hb, hfs⟩ := fits
    refine ih hfs ?_
    rw [Frame.fill]
    by_cases two : ht (refresh t) = ht f.sibling + 2
    · exact ⟨f.side, f.value, _, _, rfl, ha, hs, .inr ⟨two, by omega⟩⟩
    · exact ⟨f.side, f.value, _, _, rfl, ha, hs, .inl ⟨by omega, by omega⟩⟩
  | top ne level => exact (near.isAvl_refresh level).1

end OpenWifi.Avl
