import Mathlib.Data.List.Nodup
import OpenWifi.CapwapTimeout.Timers
import OpenWifi.Lib.Steps

/-!
# The order of the timers

`capwap_timeout_additem` puts a new item one place too far to the front; `capwap_timeout_getcoming` sets all the timers
anew when the clock went back and leaves them in their old order.
-/

namespace OpenWifi.CapwapTimeout

open List Option

variable {α : Type*}

theorem tdiv_eq (n : ℤ) : n.tdiv 1000 = if 0 ≤ n then n / 1000 else -(-n / 1000) := by
  split
  next nonneg => exact Int.tdiv_eq_ediv_of_nonneg nonneg
  · rw [← Int.tdiv_eq_ediv_of_nonneg (by omega), Int.neg_tdiv, Int.neg_neg]

theorem micros_lt_of_getdelta_neg {a b : Timeval} (neg : getdelta a b < 0) : a.micros < b.micros := by
  have := a.usec_lt
  have := b.usec_lt
  rw [getdelta, tdiv_eq] at neg
  unfold Timeval.micros
  split at neg <;> omega

theorem getdelta_le_getdelta {a b c : Timeval} (le : a.micros ≤ b.micros) : getdelta a c ≤ getdelta b c := by
  have := a.usec_lt
  have := b.usec_lt
  have := c.usec_lt
  unfold Timeval.micros at le
  rw [getdelta, getdelta, tdiv_eq, tdiv_eq]
  split <;> split <;> omega

theorem micros_setexpire (durate : ℕ) (now : Timeval) :
    (setexpire durate now).micros = now.micros + (durate / 1000 * 1000000 + durate % 1000 : ℕ) := by
  unfold setexpire Timeval.micros
  split
  · dsimp only
    omega
  · dsimp only
    omega

theorem micros_setexpire_le {durate durate' : ℕ} (le : durate ≤ durate') (now : Timeval) :
    (setexpire durate now).micros ≤ (setexpire durate' now).micros := by
  rw [micros_setexpire, micros_setexpire]
  omega

/-! ## A new item -/

def Sorted (items : List (Item α)) : Prop := items.Pairwise fun a b => a.expire.micros ≤ b.expire.micros

variable {item : Item α}

theorem Sorted.head_le {rest : List (Item α)} (sorted : Sorted (item :: rest)) :
    ∀ y ∈ item :: rest, item.expire.micros ≤ y.expire.micros := by
  intro y mem
  rcases mem_cons.1 mem with rfl | mem
  · exact Int.le_refl _
  · exact rel_of_pairwise_cons sorted mem

def Resolved (expire : Timeval) (items : List (Item α)) : Prop :=
  ∀ y ∈ items, y.expire.micros ≤ expire.micros ∨ getdelta expire y.expire < 0
  deriving Decidable

def Placed (expire : Timeval) (items : List (Item α)) : Prop :=
  (∀ y ∈ items, y.expire.micros ≤ expire.micros) ∨ (∀ y ∈ items, expire.micros ≤ y.expire.micros) ∨
    ∃ y ∈ items, y.expire.micros = expire.micros
  deriving Decidable

/-- Where `capwap_timeout_additem` puts an item. -/
inductive Inserted (item : Item α) : List (Item α) → List (Item α) → Prop
  | last {items : List (Item α)} (notLater : ∀ y ∈ items, 0 ≤ getdelta item.expire y.expire) :
    Inserted item items (items ++ [item])
  | first {search : Item α} {rest : List (Item α)} (later : getdelta item.expire search.expire < 0) :
    Inserted item (search :: rest) (item :: search :: rest)
  | before {done : List (Item α)} {last search : Item α} {rest : List (Item α)}
    (notLater : ∀ y ∈ done ++ [last], 0 ≤ getdelta item.expire y.expire)
    (later : getdelta item.expire search.expire < 0) :
    Inserted item (done ++ last :: search :: rest) (done ++ item :: last :: search :: rest)

theorem inserted_additemLoop {item last : Item α} {done rest : List (Item α)}
    (notLater : ∀ y ∈ done ++ [last], 0 ≤ getdelta item.expire y.expire) :
    Inserted item (done ++ last :: rest) (additemLoop item done (some last) rest) := by
  induction rest generalizing done last with
  | nil => exact .last notLater
  | cons search rest ih =>
    unfold additemLoop
    split
    next later => exact .before notLater later
    next notBefore =>
      have all : ∀ y ∈ (done ++ [last]) ++ [search], 0 ≤ getdelta item.expire y.expire :=
        forall_mem_append.2 ⟨notLater, forall_mem_singleton.2 (Int.not_lt.1 notBefore)⟩
      simpa using ih all

theorem inserted_additem (item : Item α) (items : List (Item α)) : Inserted item items (additem item items) := by
  unfold additem
  cases items with
  | nil => exact .last (by simp)
  | cons search rest =>
    unfold additemLoop
    split
    next later => exact .first later
    next notBefore =>
      have notLater : ∀ y ∈ [] ++ [search], 0 ≤ getdelta item.expire y.expire := by
        simpa using Int.not_lt.1 notBefore
      exact inserted_additemLoop notLater

theorem Inserted.perm {items items' : List (Item α)} (h : Inserted item items items') :
    items'.Perm (item :: items) := by
  cases h with
  | last => exact perm_append_singleton _ _
  | first => exact .refl _
  | before => exact perm_middle

@[simp] theorem mem_additem {item y : Item α} {items : List (Item α)} :
    y ∈ additem item items ↔ y = item ∨ y ∈ items := by
  rw [(inserted_additem item items).perm.mem_iff, mem_cons]

theorem Inserted.sorted_iff {items items' : List (Item α)} (h : Inserted item items items')
    (sorted : Sorted items) (resolved : Resolved item.expire items) : Sorted items' ↔ Placed item.expire items := by
  have upTo : ∀ y ∈ items, 0 ≤ getdelta item.expire y.expire → y.expire.micros ≤ item.expire.micros := by
    intro y mem notLater
    rcases resolved y mem with le | later
    · exact le
    · omega
  cases h with
  | last notLater =>
    have le : ∀ y ∈ items, y.expire.micros ≤ item.expire.micros := fun y mem => upTo y mem (notLater y mem)
    refine ⟨fun _ => .inl le, fun _ => pairwise_append.2 ⟨sorted, pairwise_singleton _ _, ?_⟩⟩
    simpa using le
  | @first search rest later =>
    have lt : item.expire.micros < search.expire.micros := micros_lt_of_getdelta_neg later
    have ge : ∀ y ∈ search :: rest, item.expire.micros ≤ y.expire.micros := by
      intro y mem
      have := sorted.head_le y mem
      omega
    exact ⟨fun _ => .inr (.inl ge), fun _ => pairwise_cons.2 ⟨ge, sorted⟩⟩
  | @before done last search rest notLater later =>
    have lt : item.expire.micros < search.expire.micros := micros_lt_of_getdelta_neg later
    have le : ∀ y ∈ done ++ [last], y.expire.micros ≤ item.expire.micros := by
      intro y mem
      refine upTo y ?_ (notLater y mem)
      simp only [mem_append, mem_cons] at mem ⊢
      tauto
    obtain ⟨sortedDone, sortedRest, across⟩ := pairwise_append.1 sorted
    obtain ⟨lastLe, sortedAfter⟩ := pairwise_cons.1 sortedRest
    -- in order exactly if `last`, which is not later, is not earlier either
    have key : Sorted (done ++ item :: last :: search :: rest) ↔ item.expire.micros ≤ last.expire.micros := by
      constructor
      · intro h
        exact rel_of_pairwise_cons (pairwise_append.1 h).2.1 mem_cons_self
      · intro itemLe
        refine pairwise_append.2 ⟨sortedDone, pairwise_cons.2 ⟨fun y mem => ?_, sortedRest⟩, fun y mem z there => ?_⟩
        · rcases mem_cons.1 mem with rfl | mem
          · exact itemLe
          · exact Int.le_trans itemLe (lastLe y mem)
        · rcases mem_cons.1 there with rfl | there
          · exact le y (mem_append_left _ mem)
          · exact across y mem z there
    rw [key]
    constructor
    · intro itemLe
      have := le last (by simp)
      exact .inr (.inr ⟨last, by simp, by omega⟩)
    · rintro (all | all | ⟨y, mem, same⟩)
      · have := all search (by simp)
        omega
      · exact all last (by simp)
      · rcases mem_append.1 mem with mem | mem
        · have := across y mem last mem_cons_self
          omega
        · rcases mem_cons.1 mem with rfl | mem
          · omega
          · have := Sorted.head_le sortedAfter y mem
            omega

namespace Timeout

variable {t t' : Timeout α} {index durate node : ℕ} {action : α} {now : Timeval}

/-! ## What the calls do to the list -/

def others (t : Timeout α) (index : ℕ) : List (Item α) :=
  if index = 0 then t.itemstimeout
  else match t.itemsreference index with
    | some node => t.itemstimeout.filter (·.node ≠ node)
    | none => t.itemstimeout

@[simp] theorem createtimer_itemstimeout (t : Timeout α) : t.createtimer.1.itemstimeout = t.itemstimeout := by
  unfold createtimer
  split <;> rfl

@[simp] theorem createtimer_itemsreference (t : Timeout α) : t.createtimer.1.itemsreference = t.itemsreference := by
  unfold createtimer
  split <;> rfl

theorem set_cases {r : Timeout α × ℕ} (h : t.set index durate action now node = some r) :
    (∃ bits i, r.1 = ({ t with bitfield := bits } : Timeout α).insert
        { node := node, index := i, durate := durate, expire := setexpire durate now, action := action } ∧
      (∀ x ∈ t.itemstimeout, x.node ≠ node) ∧ t.others index = t.itemstimeout ∧
      (index = 0 ∧ bits = t.createtimer.1.bitfield ∧ i = t.createtimer.2 ∨
        index ≠ 0 ∧ t.itemsreference index = none ∧ bits = t.bitfield ∧ i = index)) ∨
    ∃ old ∈ t.itemstimeout, t.itemsreference index = some old.node ∧ r.1 = t.renew old durate action now ∧
      t.others index = t.itemstimeout.filter (·.node ≠ old.node) := by
  unfold set at h
  split at h
  next noSet =>
    left
    obtain ⟨free, eq⟩ := ite_none_left_eq_some.1 h
    rw [some.injEq] at eq
    refine ⟨t.createtimer.1.bitfield, t.createtimer.2, ?_, by simpa using free, if_pos noSet, .inl ⟨noSet, rfl, rfl⟩⟩
    rw [← eq]
    simp [insert]
  next set' =>
    split at h
    next node' known =>
      right
      obtain ⟨old, found, rfl⟩ := map_eq_some_iff.1 h
      have same : old.node = node' := by simpa using find?_some found
      subst same
      exact ⟨old, mem_of_find?_eq_some found, known, rfl, by simp [others, set', known]⟩
    next unknown =>
      left
      obtain ⟨free, ⟨⟩⟩ := ite_none_left_eq_some.1 h
      exact ⟨t.bitfield, index, rfl,
        by simpa using free, by simp [others, set', unknown], .inr ⟨set', unknown, rfl, rfl⟩⟩

theorem set_itemstimeout {r : Timeout α × ℕ} (h : t.set index durate action now node = some r) :
    ∃ item : Item α, item.expire = setexpire durate now ∧ r.1.itemstimeout = additem item (t.others index) := by
  rcases set_cases h with ⟨bits, i, eq, -, others, -⟩ | ⟨old, -, -, eq, others⟩
  · exact ⟨_, rfl, by rw [eq, others]; rfl⟩
  · exact ⟨_, rfl, by rw [eq, others]; rfl⟩

theorem unset_cases (h : t.unset index = some t') : t' = t ∧ (index = 0 ∨ t.itemsreference index = none) ∨
      ∃ old ∈ t.itemstimeout, t.itemsreference index = some old.node ∧
      t' = { t with itemsreference := Function.update t.itemsreference index none
                    itemstimeout := t.itemstimeout.filter (·.node ≠ old.node) } := by
  unfold unset at h
  split at h
  next none => exact .inl ⟨(some.inj h).symm, .inl none⟩
  · split at h
    next none => exact .inl ⟨(some.inj h).symm, .inr none⟩
    next node known =>
      obtain ⟨there, ⟨⟩⟩ := ite_none_right_eq_some.1 h
      obtain ⟨old, mem, same⟩ := any_eq_true.1 there
      obtain rfl : old.node = node := of_decide_eq_true same
      exact .inr ⟨old, mem, known, rfl⟩

theorem deletetimer_cases (h : t.deletetimer index = some t') :
    ∃ bits t'', (t'' = t ∨ t.unset index = some t'') ∧ t' = { t'' with bitfield := bits } := by
  unfold deletetimer at h
  split at h
  · cases h
    exact ⟨t.bitfield, t, .inl rfl, rfl⟩
  · obtain ⟨t'', unset, rfl⟩ := map_eq_some_iff.1 h
    exact ⟨_, t'', .inr unset, rfl⟩

theorem getcoming_cases (t : Timeout α) (now : Timeval) :
    t.itemstimeout = [] ∧ t.getcoming now = (t, -1) ∨ ∃ item rest, t.itemstimeout = item :: rest ∧
        (getdelta item.expire now ≤ 0 ∧ t.getcoming now = (t, 0) ∨
          0 < getdelta item.expire now ∧ getdelta item.expire now ≤ item.durate ∧
            t.getcoming now = (t, getdelta item.expire now) ∨
          item.durate < getdelta item.expire now ∧ t.getcoming now = (t.recalculate now, (item.durate : ℤ))) := by
  unfold getcoming
  cases eq : t.itemstimeout with
  | nil => exact .inl ⟨rfl, rfl⟩
  | cons item rest =>
    refine .inr ⟨item, rest, rfl, ?_⟩
    dsimp only
    split
    next expired => exact .inl ⟨expired, rfl⟩
    next pending =>
      split
      next within => exact .inr (.inl ⟨Int.not_le.1 pending, within, rfl⟩)
      next beyond => exact .inr (.inr ⟨Int.not_le.1 beyond, rfl⟩)

theorem hasexpired_cases (t : Timeout α) (now : Timeval) :
    ((t.getcoming now).2 ≠ 0 ∧ t.hasexpired now = ((t.getcoming now).1, none)) ∨
      ∃ item rest, (t.getcoming now).1.itemstimeout = item :: rest ∧ (t.getcoming now).2 = 0 ∧
        t.hasexpired now = ({ (t.getcoming now).1 with
          itemsreference := Function.update (t.getcoming now).1.itemsreference item.index none
          itemstimeout := rest }, some item) := by
  rcases getcoming_cases t now with ⟨-, eq⟩ | ⟨item, rest, items, ⟨-, eq⟩ | ⟨pos, -, eq⟩ | ⟨-, eq⟩⟩
  · left
    simp [hasexpired, eq]
  · right
    exact ⟨item, rest, by rw [eq, items], by rw [eq], by simp [hasexpired, eq, items]⟩
  · left
    exact ⟨by rw [eq]; dsimp only; omega, by simp [hasexpired, eq, pos]⟩
  · by_cases zero : item.durate = 0
    · right
      refine ⟨{ item with expire := setexpire item.durate now }, _, by rw [eq, recalculate, items]; rfl, ?_, ?_⟩
      · rw [eq, zero]
        rfl
      · simp [hasexpired, eq, recalculate, items, zero]
    · left
      exact ⟨by rw [eq]; dsimp only; omega, by simp [hasexpired, eq, Nat.pos_of_ne_zero zero]⟩

/-! ## References -/

structure Linked (t : Timeout α) : Prop where
  nodup : (t.itemstimeout.map Item.node).Nodup
  reference : ∀ index node, t.itemsreference index = some node → ∃ x ∈ t.itemstimeout, x.node = node ∧ x.index = index

theorem linked_init : Linked (init : Timeout α) := ⟨nodup_nil, by simp [init]⟩

theorem Linked.same_item (h : Linked t) {x y : Item α} (memX : x ∈ t.itemstimeout) (memY : y ∈ t.itemstimeout)
    (same : x.node = y.node) : x = y :=
  inj_on_of_nodup_map h.nodup memX memY same

theorem Linked.insert (h : Linked t) (fresh : ∀ x ∈ t.itemstimeout, x.node ≠ item.node) : Linked (t.insert item) := by
  refine ⟨?_, fun index node refers => ?_⟩
  · refine ((inserted_additem item t.itemstimeout).perm.map Item.node).nodup_iff.2 ?_
    simpa using ⟨fresh, h.nodup⟩
  · simp only [Timeout.insert, Function.update_apply] at refers
    split at refers
    next here => exact ⟨item, mem_additem.2 (.inl rfl), some.inj refers, here.symm⟩
    · obtain ⟨x, mem, same⟩ := h.reference index node refers
      exact ⟨x, mem_additem.2 (.inr mem), same⟩

theorem Linked.renew (h : Linked t) {old : Item α} (there : old ∈ t.itemstimeout) :
    Linked (t.renew old durate action now) := by
  refine ⟨?_, fun index node refers => ?_⟩
  · refine ((inserted_additem _ _).perm.map Item.node).nodup_iff.2 ?_
    simpa using h.nodup.sublist ((filter_sublist (l := t.itemstimeout)).map Item.node)
  · obtain ⟨x, mem, rfl, rfl⟩ := h.reference index node refers
    by_cases same : x.node = old.node
    · obtain rfl := h.same_item mem there same
      exact ⟨_, mem_additem.2 (.inl rfl), rfl, rfl⟩
    · exact ⟨x, mem_additem.2 (.inr (mem_filter.2 ⟨mem, by simpa using same⟩)), rfl, rfl⟩

theorem Linked.unset (h : Linked t) (unset : t.unset index = some t') : Linked t' := by
  rcases unset_cases unset with ⟨rfl, -⟩ | ⟨old, there, known, rfl⟩
  · exact h
  · refine ⟨h.nodup.sublist (filter_sublist.map Item.node), fun index' node refers => ?_⟩
    simp only [Function.update_apply] at refers
    split at refers
    · simp at refers
    next other =>
      obtain ⟨x, mem, rfl, rfl⟩ := h.reference index' node refers
      refine ⟨x, mem_filter.2 ⟨mem, ?_⟩, rfl, rfl⟩
      -- one item has one index
      obtain ⟨y, memY, sameNode, sameIndex⟩ := h.reference index old.node known
      obtain rfl := h.same_item memY there sameNode
      simpa using fun same => other ((congrArg Item.index (h.same_item mem there same)).trans sameIndex)

theorem Linked.getcoming (h : Linked t) (now : Timeval) : Linked (t.getcoming now).1 := by
  have recalculated : Linked (t.recalculate now) := by
    have nodes : (t.recalculate now).itemstimeout.map Item.node = t.itemstimeout.map Item.node := by
      rw [recalculate, List.map_map]
      rfl
    refine ⟨by rw [nodes]; exact h.nodup, fun index node refers => ?_⟩
    obtain ⟨x, mem, same⟩ := h.reference index node refers
    exact ⟨_, mem_map_of_mem mem, same⟩
  rcases getcoming_cases t now with ⟨-, eq⟩ | ⟨item, rest, -, ⟨-, eq⟩ | ⟨-, -, eq⟩ | ⟨-, eq⟩⟩ <;> rw [eq]
  all_goals assumption

theorem Linked.hasexpired (h : Linked t) (now : Timeval) : Linked (t.hasexpired now).1 := by
  have coming := h.getcoming now
  rcases hasexpired_cases t now with ⟨-, eq⟩ | ⟨item, rest, items, -, eq⟩
  · rw [eq]
    exact coming
  · have nodup := coming.nodup
    rw [items, map_cons, nodup_cons] at nodup
    rw [eq]
    refine ⟨nodup.2, fun index node refers => ?_⟩
    simp only [Function.update_apply] at refers
    split at refers
    · simp at refers
    next other =>
      obtain ⟨x, mem, same, rfl⟩ := coming.reference index node refers
      rw [items] at mem
      rcases mem_cons.1 mem with rfl | mem
      · exact absurd rfl other
      · exact ⟨x, mem, same, rfl⟩

theorem Linked.step {e : Event α} (h : Linked t) (next : t.step e = some t') : Linked t' := by
  cases e with
  | createtimer =>
    obtain rfl := some.inj next
    exact ⟨by simpa using h.nodup, by simpa using h.reference⟩
  | deletetimer index =>
    obtain ⟨bits, t'', unset, rfl⟩ := deletetimer_cases next
    rcases unset with rfl | unset
    · exact ⟨h.nodup, h.reference⟩
    · exact ⟨(h.unset unset).nodup, (h.unset unset).reference⟩
  | set index durate action now node =>
    obtain ⟨r, set, rfl⟩ := map_eq_some_iff.1 next
    rcases set_cases set with ⟨bits, i, eq, fresh, -⟩ | ⟨old, there, -, eq, -⟩
    · have linked : Linked ({ t with bitfield := bits } : Timeout α) := ⟨h.nodup, h.reference⟩
      rw [eq]
      exact linked.insert fresh
    · rw [eq]
      exact h.renew there
  | unset index => exact h.unset next
  | unsetall =>
    cases next
    exact ⟨nodup_nil, by simp [unsetall]⟩
  | getcoming now =>
    cases next
    exact h.getcoming now
  | hasexpired now =>
    cases next
    exact h.hasexpired now

/-! ## Runs -/

def Steady (t : Timeout α) (now : Timeval) : Prop :=
  ∀ item rest, t.itemstimeout = item :: rest → item.durate < getdelta item.expire now →
    t.itemstimeout.Pairwise fun a b => a.durate ≤ b.durate

/-- A timer is not set strictly between two others, or within the millisecond before one, and the clock does not go back
too far. -/
def Orderly (t : Timeout α) : Event α → Prop
  | .set index durate _ now _ =>
    Resolved (setexpire durate now) (t.others index) ∧ Placed (setexpire durate now) (t.others index)
  | .getcoming now => t.Steady now
  | .hasexpired now => t.Steady now
  | _ => True

section

variable (sorted : Sorted t.itemstimeout)
include sorted

theorem sorted_others (index : ℕ) : Sorted (t.others index) := by
  unfold others
  split
  · exact sorted
  · split
    · exact sorted.filter _
    · exact sorted

theorem sorted_getcoming (steady : t.Steady now) : Sorted (t.getcoming now).1.itemstimeout := by
  rcases getcoming_cases t now with ⟨-, eq⟩ | ⟨item, rest, items, ⟨-, eq⟩ | ⟨-, -, eq⟩ | ⟨back, eq⟩⟩ <;> rw [eq]
  · exact sorted
  · exact sorted
  · exact sorted
  · refine pairwise_map.2 ((steady item rest items back).imp fun le => ?_)
    exact micros_setexpire_le le now

theorem sorted_hasexpired (steady : t.Steady now) : Sorted (t.hasexpired now).1.itemstimeout := by
  have coming := sorted_getcoming sorted steady
  rcases hasexpired_cases t now with ⟨-, eq⟩ | ⟨item, rest, items, -, eq⟩
  · rw [eq]
    exact coming
  · rw [eq]
    rw [items] at coming
    exact (pairwise_cons.1 coming).2

theorem sorted_unset (unset : t.unset index = some t') : Sorted t'.itemstimeout := by
  rcases unset_cases unset with ⟨rfl, -⟩ | ⟨old, -, -, rfl⟩
  · exact sorted
  · exact sorted.filter _

theorem sorted_step {e : Event α} (orderly : t.Orderly e) (next : t.step e = some t') : Sorted t'.itemstimeout := by
  cases e with
  | createtimer =>
    obtain rfl := some.inj next
    simpa using sorted
  | deletetimer index =>
    obtain ⟨bits, t'', unset, rfl⟩ := deletetimer_cases next
    rcases unset with rfl | unset
    · exact sorted
    · exact (sorted_unset sorted unset :)
  | set index durate action now node =>
    obtain ⟨r, set, rfl⟩ := map_eq_some_iff.1 next
    obtain ⟨item, expire, items⟩ := set_itemstimeout set
    rw [items]
    refine ((inserted_additem item _).sorted_iff (sorted_others sorted index) ?_).2 ?_
    · rw [expire]
      exact orderly.1
    · rw [expire]
      exact orderly.2
  | unset index => exact sorted_unset sorted next
  | unsetall =>
    cases next
    exact List.Pairwise.nil
  | getcoming now =>
    cases next
    exact sorted_getcoming sorted orderly
  | hasexpired now =>
    cases next
    exact sorted_hasexpired sorted orderly

end

theorem getcoming_earliest (sorted : Sorted t.itemstimeout) (steady : t.Steady now) (pending : t.itemstimeout ≠ []) :
    ∃ x ∈ t.itemstimeout, (∀ y ∈ t.itemstimeout, x.expire.micros ≤ y.expire.micros) ∧
      ((t.getcoming now).2 = max 0 (getdelta x.expire now) ∧ (t.getcoming now).1 = t ∨
        (t.getcoming now).2 = x.durate ∧ (t.getcoming now).1 = t.recalculate now ∧
          x.durate < getdelta x.expire now ∧ ∀ y ∈ t.itemstimeout, x.durate ≤ y.durate) := by
  rcases getcoming_cases t now with ⟨none, -⟩ | ⟨item, rest, items, coming⟩
  · exact absurd none pending
  have first : ∀ y ∈ t.itemstimeout, item.expire.micros ≤ y.expire.micros := by
    rw [items] at sorted ⊢
    exact sorted.head_le
  refine ⟨item, by simp [items], first, ?_⟩
  rcases coming with ⟨expired, eq⟩ | ⟨pos, -, eq⟩ | ⟨back, eq⟩ <;> rw [eq]
  · exact .inl ⟨by dsimp only; omega, rfl⟩
  · exact .inl ⟨by dsimp only; omega, rfl⟩
  · refine .inr ⟨rfl, rfl, back, ?_⟩
    have durations := steady item rest items back
    rw [items] at durations ⊢
    intro y mem
    rcases mem_cons.1 mem with rfl | mem
    · exact Nat.le_refl _
    · exact rel_of_pairwise_cons durations mem

theorem hasexpired_earliest (sorted : Sorted t.itemstimeout) (now : Timeval) :
    (∀ x, (t.hasexpired now).2 = some x → ∃ z ∈ t.itemstimeout, z.node = x.node ∧
      (∀ y ∈ t.itemstimeout, z.expire.micros ≤ y.expire.micros) ∧ (getdelta z.expire now ≤ 0 ∨ z.durate = 0)) ∧
    ((t.hasexpired now).2 = none → ∀ y ∈ t.itemstimeout, 0 < getdelta y.expire now) := by
  rcases getcoming_cases t now with ⟨none, eq⟩ | ⟨item, rest, items, coming⟩
  · simp [hasexpired, eq, none]
  have first : ∀ y ∈ t.itemstimeout, item.expire.micros ≤ y.expire.micros := by
    rw [items] at sorted ⊢
    exact sorted.head_le
  have later : 0 < getdelta item.expire now → ∀ y ∈ t.itemstimeout, 0 < getdelta y.expire now :=
    fun pos y mem => Int.lt_of_lt_of_le pos (getdelta_le_getdelta (first y mem))
  have there : item ∈ t.itemstimeout := by simp [items]
  rcases hasexpired_cases t now with ⟨nonzero, eq⟩ | ⟨head, rest', items', zero, eq⟩ <;> rw [eq]
  · refine ⟨by simp, fun _ => later ?_⟩
    rcases coming with ⟨-, same⟩ | ⟨pos, -⟩ | ⟨back, -⟩
    · simp [same] at nonzero
    · exact pos
    · omega
  · refine ⟨fun x ended => ?_, by simp⟩
    rw [some.injEq] at ended
    subst ended
    rcases coming with ⟨expired, same⟩ | ⟨pos, -, same⟩ | ⟨back, same⟩
    · rw [same, items] at items'
      cases items'
      exact ⟨item, there, rfl, first, .inl expired⟩
    · rw [same] at zero
      dsimp only at zero
      omega
    · rw [same, recalculate, items] at items'
      cases items'
      rw [same] at zero
      dsimp only at zero
      exact ⟨item, there, rfl, first, .inr (by omega)⟩

/-- In a run in which no timer is set strictly between two others or within the millisecond before one, and the clock
does not disturb the order, the timers are in the order in which they expire. -/
theorem run_sorted {es : List (Event α)} (along : Along step Orderly init es) (run : runFrom step init es = some t) :
    Sorted t.itemstimeout ∧ Linked t ∧ ∀ now : Timeval, (t.Steady now → t.itemstimeout ≠ [] →
        ∃ x ∈ t.itemstimeout, (∀ y ∈ t.itemstimeout, x.expire.micros ≤ y.expire.micros) ∧
          ((t.getcoming now).2 = max 0 (getdelta x.expire now) ∧ (t.getcoming now).1 = t ∨
            (t.getcoming now).2 = x.durate ∧ (t.getcoming now).1 = t.recalculate now ∧
              x.durate < getdelta x.expire now ∧ ∀ y ∈ t.itemstimeout, x.durate ≤ y.durate)) ∧
      (∀ x, (t.hasexpired now).2 = some x → ∃ z ∈ t.itemstimeout, z.node = x.node ∧
        (∀ y ∈ t.itemstimeout, z.expire.micros ≤ y.expire.micros) ∧ (getdelta z.expire now ≤ 0 ∨ z.durate = 0)) ∧
      ((t.hasexpired now).2 = none → ∀ y ∈ t.itemstimeout, 0 < getdelta y.expire now) := by
  have start : Sorted (init : Timeout α).itemstimeout := List.Pairwise.nil
  have sorted := along.invariant (P := fun t => Sorted t.itemstimeout)
    (fun _ _ _ sorted orderly next => sorted_step sorted orderly next) start run
  have linked := along.invariant (fun _ _ _ linked _ next => Linked.step linked next) linked_init run
  exact ⟨sorted, linked, fun now =>
    ⟨getcoming_earliest sorted, (hasexpired_earliest sorted now).1, (hasexpired_earliest sorted now).2⟩⟩

def seconds (sec : ℤ) : Timeval := ⟨sec, 0, by decide⟩

theorem run_sorted_twoTimers : ∃ t, runFrom step (init : Timeout Unit)
        [.set 1 30000 () (seconds 100) 0, .set 2 10000 () (seconds 101) 1] = some t ∧
      t.itemstimeout.map (fun x => (x.node, x.expire)) = [(1, seconds 111), (0, seconds 130)] ∧
      Sorted t.itemstimeout := by
  have along : Along step Orderly (init : Timeout Unit)
      [.set 1 30000 () (seconds 100) 0, .set 2 10000 () (seconds 101) 1] := by
    refine ⟨⟨by decide, by decide⟩, fun t₁ first => ⟨?_, fun _ _ => trivial⟩⟩
    cases first
    exact ⟨by decide +kernel, by decide +kernel⟩
  exact run_and ⟨_, rfl, by decide +kernel⟩ fun t run _ => (run_sorted along run).1

/-- A timer of 20 s is put before one of 10 s; and when the clock goes back, the timers stay in their old order. -/
theorem timers_out_of_order : (∃ t, runFrom step (init : Timeout Unit)
        [.set 1 10000 () (seconds 0) 0, .set 2 30000 () (seconds 0) 1, .set 3 20000 () (seconds 0) 2] = some t ∧
      t.itemstimeout.map (·.expire) = [seconds 20, seconds 10, seconds 30] ∧
      (t.getcoming (seconds 0)).2 = 20000 ∧ (t.hasexpired (seconds 15)).2 = none) ∧
    ∃ t, runFrom step (init : Timeout Unit)
        [.set 1 10000 () (seconds 100) 0, .set 2 6000 () (seconds 105) 1, .getcoming (seconds 50)] = some t ∧
      t.itemstimeout.map (·.expire) = [seconds 60, seconds 56] ∧ (t.hasexpired (seconds 58)).2 = none :=
  ⟨⟨_, rfl, by decide +kernel⟩, _, rfl, by decide +kernel⟩

end Timeout

end OpenWifi.CapwapTimeout
