import OpenWifi.Lib.Avl

/-!
# Search trees

A tree is a search tree when the keys of its cores grow from left to right.  What a search finds depends on the list
of the cores only, so that an operation on the tree is described by what it does with this list: it puts one core in
between (`Adds`), or, read from right to left, takes one out.
-/

namespace OpenWifi.Avl

open List Zipper

variable {κ α : Type*} [LinearOrder α] (key : κ → α)

def Growing (l : List κ) : Prop := l.Pairwise fun c d => key c < key d

def Ordered (t : HTree κ) : Prop := Growing key (cores t)

variable {key} {l l' : List κ} {c d : κ} {t : HTree κ} {v : Label κ} {x y : HTree κ}

theorem growing_append_cons : Growing key (l ++ c :: l') ↔
    Growing key l ∧ Growing key l' ∧ (∀ d ∈ l, key d < key c) ∧ ∀ d ∈ l', key c < key d := by
  simp only [Growing, pairwise_append, pairwise_cons, forall_mem_cons]
  constructor
  · rintro ⟨left, ⟨right, rest⟩, cross⟩
    exact ⟨left, rest, fun c mem => (cross c mem).1, right⟩
  · rintro ⟨left, rest, lower, right⟩
    refine ⟨left, ⟨right, rest⟩, fun c mem => ⟨lower c mem, fun d memD => ?_⟩⟩
    exact (lower c mem).trans (right d memD)

theorem ordered_node : Ordered key (.node v x y) ↔
    Ordered key x ∧ Ordered key y ∧ (∀ c ∈ cores x, key c < key v.core) ∧ ∀ c ∈ cores y, key v.core < key c := by
  rw [Ordered, cores_node]
  exact growing_append_cons

def Adds (c : κ) (l l' : List κ) : Prop := ∃ front back, l = front ++ back ∧ l' = front ++ c :: back

theorem Adds.mem_iff (h : Adds c l l') : d ∈ l' ↔ d = c ∨ d ∈ l := by
  obtain ⟨front, back, rfl, rfl⟩ := h
  simp only [mem_append, mem_cons]
  tauto

theorem Adds.sublist (h : Adds c l l') : l.Sublist l' := by
  obtain ⟨front, back, rfl, rfl⟩ := h
  exact List.Sublist.append_left (sublist_cons_self c back) front

theorem Adds.append_right (h : Adds c l l') (more : List κ) : Adds c (l ++ more) (l' ++ more) := by
  obtain ⟨front, back, rfl, rfl⟩ := h
  exact ⟨front, back ++ more, by simp, by simp⟩

theorem Adds.append_left (h : Adds c l l') (more : List κ) : Adds c (more ++ l) (more ++ l') := by
  obtain ⟨front, back, rfl, rfl⟩ := h
  exact ⟨more ++ front, back, by simp, by simp⟩

def lookup (key : κ → α) (l : List κ) (a : α) : Option κ := l.find? fun c => key c = a

theorem lookup_eq_none {a : α} : lookup key l a = none ↔ ∀ c ∈ l, key c ≠ a := by
  simp [lookup, find?_eq_none]

theorem Growing.lookup_eq_some (growing : Growing key l) {a : α} : lookup key l a = some c ↔ c ∈ l ∧ key c = a := by
  constructor
  · intro found
    exact ⟨mem_of_find?_eq_some found, by simpa using find?_some found⟩
  · rintro ⟨mem, rfl⟩
    induction l with
    | nil => exact absurd mem not_mem_nil
    | cons d l ih =>
      obtain ⟨later, rest⟩ := pairwise_cons.1 growing
      rcases mem_cons.1 mem with rfl | mem
      · simp [lookup]
      · have other : ¬ key d = key c := (later c mem).ne
        rw [← ih rest mem, lookup, find?_cons_of_neg (by simpa using other), lookup]

theorem Growing.eq_of_key (growing : Growing key l) (memC : c ∈ l) (memD : d ∈ l) (same : key c = key d) : c = d :=
  Option.some.inj ((growing.lookup_eq_some.2 ⟨memC, same⟩).symm.trans (growing.lookup_eq_some.2 ⟨memD, rfl⟩))

theorem Growing.lookup_append_cons (growing : Growing key (l ++ c :: l')) (a : α) : lookup key (l ++ c :: l') a =
      if a < key c then lookup key l a else if key c < a then lookup key l' a else some c := by
  obtain ⟨-, -, lower, upper⟩ := growing_append_cons.1 growing
  have split : lookup key (l ++ c :: l') a =
      (lookup key l a).or ((if key c = a then some c else none).or (lookup key l' a)) := by
    simp only [lookup, find?_append, find?_cons]
    by_cases own : key c = a <;> simp [own]
  rcases lt_trichotomy a (key c) with less | rfl | greater
  · have none_right : lookup key l' a = none := lookup_eq_none.2 fun c mem => (less.trans (upper c mem)).ne'
    rw [split, none_right, if_neg less.ne', if_pos less]
    simp
  · have none_left : lookup key l (key c) = none := lookup_eq_none.2 fun c mem => (lower c mem).ne
    rw [split, none_left]
    simp
  · have none_left : lookup key l a = none := lookup_eq_none.2 fun c mem => ((lower c mem).trans greater).ne
    rw [split, none_left, if_neg greater.ne, if_neg greater.not_gt, if_pos greater]
    simp

theorem Ordered.lookup_node (ordered : Ordered key (.node v x y)) (a : α) :
    lookup key (cores (.node v x y)) a = if a < key v.core then lookup key (cores x) a
      else if key v.core < a then lookup key (cores y) a else some v.core := by
  rw [Ordered, cores_node] at ordered
  rw [cores_node, ordered.lookup_append_cons]

theorem Adds.lookup_eq (h : Adds c l l') (growing : Growing key l') (a : α) :
    lookup key l' a = if a = key c then some c else lookup key l a := by
  by_cases own : a = key c
  · rw [if_pos own, growing.lookup_eq_some]
    exact ⟨h.mem_iff.2 (.inl rfl), own.symm⟩
  · rw [if_neg own]
    obtain ⟨front, back, rfl, rfl⟩ := h
    have other : ¬ key c = a := Ne.symm own
    simp [lookup, find?_append, decide_eq_false other]

theorem Adds.lookup_own (h : Adds c l l') (growing : Growing key l') : lookup key l (key c) = none := by
  rw [lookup_eq_none]
  intro d mem same
  obtain ⟨front, back, rfl, rfl⟩ := h
  rw [Growing, pairwise_append, pairwise_cons] at growing
  obtain ⟨-, ⟨later, -⟩, earlier⟩ := growing
  rcases mem_append.1 mem with memD | memD
  · exact absurd same (earlier d memD c (by simp)).ne
  · exact absurd same (later d memD).ne'

end OpenWifi.Avl
