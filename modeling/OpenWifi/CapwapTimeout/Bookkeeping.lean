import OpenWifi.CapwapTimeout.Order

/-!
# The bookkeeping of the timers

The list, the table by index and the bit field agree as long as timers are set under indexes that are in use.
-/

namespace OpenWifi.CapwapTimeout.Timeout

open List Option
open Function (update update_self update_apply)

variable {α : Type*} {t t' : Timeout α}

/-- A pending timer has a bit and a reference of its own. -/
def Booked (t : Timeout α) (x : Item α) : Prop :=
  x.index ≠ 0 ∧ t.bitfield (x.index - 1) = true ∧ t.itemsreference x.index = some x.node

/-- Each pending timer is in the list once and in the table once, under its index, whose bit is set. -/
structure Agrees (t : Timeout α) : Prop extends Linked t where
  booked : ∀ x ∈ t.itemstimeout, t.Booked x

/-- A timer is set under an index that was handed out and not deleted since, or while there is an index left. -/
def Proper (t : Timeout α) : Event α → Prop
  | .set index _ _ _ _ => if index = 0 then ∃ i < 4096, t.bitfield i = false else t.bitfield (index - 1) = true
  | .deletetimer index => index ≤ 4096
  | _ => True

theorem createtimer_cases (t : Timeout α) : (t.createtimer = (t, 0) ∧ ∀ i < 4096, t.bitfield i = true) ∨
      ∃ i, t.bitfield i = false ∧ t.createtimer = ({ t with bitfield := update t.bitfield i true }, i + 1) := by
  unfold createtimer
  split
  next i found => exact .inr ⟨i, by simpa using find?_some found, rfl⟩
  next none => exact .inl ⟨rfl, by simpa using find?_eq_none.1 none⟩

namespace Agrees

variable (h : t.Agrees)
include h

theorem index_inj : ∀ x ∈ t.itemstimeout, ∀ y ∈ t.itemstimeout, x.index = y.index → x = y := by
  intro x memX y memY same
  have node := (h.booked x memX).2.2
  rw [same, (h.booked y memY).2.2, some.injEq] at node
  exact h.same_item memX memY node.symm

theorem free {i : ℕ} (clear : t.bitfield i = false) : t.itemsreference (i + 1) = none := by
  rw [eq_none_iff_forall_ne_some]
  intro node refers
  obtain ⟨x, mem, -, index⟩ := h.reference _ node refers
  have booked := h.booked x mem
  simp [Booked, index, clear] at booked

theorem createtimer : t.createtimer.1.Agrees := by
  rcases createtimer_cases t with ⟨eq, -⟩ | ⟨i, -, eq⟩ <;> rw [eq]
  · exact h
  · refine ⟨⟨h.nodup, h.reference⟩, fun x mem => ?_⟩
    have booked := h.booked x mem
    grind [Booked, update_apply]

theorem insert {item : Item α} (fresh : ∀ x ∈ t.itemstimeout, x.node ≠ item.node) (nonzero : item.index ≠ 0)
    (bit : t.bitfield (item.index - 1) = true)
    (free : t.itemsreference item.index = none) : (t.insert item).Agrees := by
  refine ⟨h.toLinked.insert fresh, fun x mem => ?_⟩
  rcases mem_additem.1 mem with rfl | mem
  · exact ⟨nonzero, bit, update_self ..⟩
  · have booked := h.booked x mem
    unfold Timeout.insert
    grind [Booked, update_apply]

theorem unset {index : ℕ} (unset : t.unset index = some t') :
    t'.Agrees ∧ (index = 0 ∨ t'.itemsreference index = none) := by
  rcases unset_cases unset with ⟨rfl, none⟩ | ⟨old, there, known, rfl⟩
  · exact ⟨h, none⟩
  · refine ⟨⟨h.toLinked.unset unset, fun x mem => ?_⟩, .inr (update_self ..)⟩
    obtain ⟨mem, node⟩ := mem_filter.1 mem
    have booked := h.booked x mem
    grind [Booked, update_apply]

theorem deletetimer {index : ℕ} (deleted : t.deletetimer index = some t') : t'.Agrees := by
  unfold Timeout.deletetimer at deleted
  split at deleted
  · exact some.inj deleted ▸ h
  · obtain ⟨t'', unset, rfl⟩ := map_eq_some_iff.1 deleted
    obtain ⟨h, none⟩ := h.unset unset
    refine ⟨⟨h.nodup, h.reference⟩, fun x mem => ?_⟩
    have booked := h.booked x mem
    grind [Booked, update_apply]

theorem getcoming (now : Timeval) : (t.getcoming now).1.Agrees := by
  refine ⟨h.toLinked.getcoming now, ?_⟩
  rcases getcoming_cases t now with ⟨-, eq⟩ | ⟨item, rest, -, ⟨-, eq⟩ | ⟨-, -, eq⟩ | ⟨-, eq⟩⟩ <;> rw [eq]
  · exact h.booked
  · exact h.booked
  · exact h.booked
  · exact forall_mem_map.2 h.booked

theorem hasexpired (now : Timeval) : (t.hasexpired now).1.Agrees := by
  have coming := h.getcoming now
  refine ⟨h.toLinked.hasexpired now, ?_⟩
  rcases hasexpired_cases t now with ⟨-, eq⟩ | ⟨item, rest, items, -, eq⟩ <;> rw [eq]
  · exact coming.booked
  · intro x (mem : x ∈ rest)
    have memX : x ∈ (t.getcoming now).1.itemstimeout := items ▸ mem_cons_of_mem _ mem
    have other : x.index ≠ item.index := by
      intro same
      have nodup := items ▸ coming.nodup
      obtain rfl := coming.index_inj x memX item (items ▸ mem_cons_self) same
      exact (nodup_cons.1 nodup).1 (mem_map_of_mem mem)
    have booked := coming.booked x memX
    grind [Booked, update_apply]

theorem step {e : Event α} (proper : t.Proper e) (next : t.step e = some t') : t'.Agrees := by
  cases e with
  | createtimer => exact some.inj next ▸ h.createtimer
  | deletetimer index => exact h.deletetimer next
  | set index durate action now node =>
    obtain ⟨r, set, rfl⟩ := map_eq_some_iff.1 next
    rcases set_cases set with ⟨bits, i, eq, fresh, -, origin⟩ | ⟨old, there, -, eq, -⟩ <;> rw [eq]
    · rcases origin with ⟨rfl, bits_eq, i_eq⟩ | ⟨known, free, rfl, rfl⟩
      · rw [bits_eq, i_eq]
        obtain ⟨i, lt, clear⟩ := proper
        rcases createtimer_cases t with ⟨-, full⟩ | ⟨j, clear, eq⟩
        · simp [full i lt] at clear
        · have created := h.createtimer
          rw [eq] at created ⊢
          exact created.insert fresh (Nat.succ_ne_zero j) (update_self ..) (h.free clear)
      · exact h.insert fresh known ((if_neg known).mp proper) free
    · refine ⟨h.toLinked.renew there, fun x mem => ?_⟩
      rcases mem_additem.1 mem with rfl | mem
      · exact h.booked old there
      · exact h.booked x (mem_filter.1 mem).1
  | unset index => exact (h.unset next).1
  | unsetall => exact some.inj next ▸ ⟨h.toLinked.step (e := .unsetall) rfl, nofun⟩
  | getcoming now => exact some.inj next ▸ h.getcoming now
  | hasexpired now => exact some.inj next ▸ h.hasexpired now

end Agrees

/-- **The list, the table and the bits agree** after every run of proper calls: the indexes of the pending timers
differ, and an index is handed out only when its bit is clear. -/
theorem run_bookkeeping {events : List (Event α)} (along : Along step Proper (init : Timeout α) events)
    (run : runFrom step init events = some t) :
    t.Agrees ∧ (t.itemstimeout.map Item.index).Nodup ∧ ∀ i, t.createtimer.2 = i + 1 → t.bitfield i = false := by
  have agrees : t.Agrees :=
    along.invariant (fun _ _ _ h proper next => Agrees.step h proper next) ⟨linked_init, nofun⟩ run
  refine ⟨agrees, (nodup_map_iff_inj_on agrees.nodup.of_map).2 agrees.index_inj, fun i handed => ?_⟩
  rcases createtimer_cases t with ⟨eq, -⟩ | ⟨j, clear, eq⟩ <;> rw [eq] at handed <;> cases handed
  exact clear

def someTimers : List (Event Unit) :=
  [.createtimer, .set 0 5 () (seconds 0) 0, .set 1 7 () (seconds 0) 1, .hasexpired (seconds 6), .unset 1]

/-- A timer is made before it is set and another one while it is set; one runs off and one is unset. -/
theorem run_bookkeeping_someTimers : ∃ t, runFrom step init someTimers = some t ∧ t.Agrees := by
  have runs : (runFrom step init someTimers).isSome := by decide +kernel
  obtain ⟨t, run⟩ := Option.isSome_iff_exists.1 runs
  have along : Along step Proper init someTimers := by
    refine ⟨trivial, fun t₁ h₁ => ⟨⟨1, by decide, ?_⟩, fun t₂ h₂ => ⟨?_, fun _ _ =>
      ⟨trivial, fun _ _ => ⟨trivial, fun _ _ => trivial⟩⟩⟩⟩⟩
    · have bit : (step (init : Timeout Unit) .createtimer).map (fun t => t.bitfield 1) = some false := by decide +kernel
      rw [h₁] at bit
      exact Option.some.inj bit
    · have bit : ((step (init : Timeout Unit) .createtimer).bind fun t =>
          (step t (.set 0 5 () (seconds 0) 0)).map fun t => t.bitfield 0) = some true := by decide +kernel
      rw [h₁, Option.bind_some, h₂] at bit
      exact Option.some.inj bit
  exact ⟨t, run, (run_bookkeeping along run).1⟩

/-- A timer that is set under an index that was never handed out has no bit. -/
theorem not_agrees_foreign : ∃ t, runFrom step (init : Timeout Unit) [.set 5 0 () (seconds 0) 0] = some t ∧
    ¬ t.Agrees :=
  ⟨_, rfl, fun h => absurd (h.booked _ mem_cons_self).2.1 nofun⟩

end OpenWifi.CapwapTimeout.Timeout
