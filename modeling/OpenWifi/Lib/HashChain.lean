import Mathlib.Data.List.Perm.Subperm

/-!
# Hash tables with chains

A table of buckets, each the head of a chain that is linked through one pointer of the nodes.  `Holds` says which nodes
are in the table: in each bucket those with its hash.
-/

namespace OpenWifi

open List
open Function (update update_self update_of_ne)

variable {κ ν : Type*} {next : ν → Option ν}

def Linked (next : ν → Option ν) : Option ν → List ν → Prop
  | p, [] => p = none
  | p, n :: rest => p = some n ∧ Linked next (next n) rest

/-- The first node from a pointer on that is looked for, within `fuel` nodes. -/
def findLinked (next : ν → Option ν) (found : ν → Bool) : ℕ → Option ν → Option ν
  | _, none => none
  | 0, some _ => none
  | fuel + 1, some n => if found n then some n else findLinked next found fuel (next n)

theorem Linked.congr {next' : ν → Option ν} {p : Option ν} {l : List ν} (linked : Linked next p l)
    (same : ∀ n ∈ l, next' n = next n) : Linked next' p l := by
  induction l generalizing p with
  | nil => exact linked
  | cons n rest ih =>
    refine ⟨linked.1, ?_⟩
    rw [same n (by simp)]
    exact ih linked.2 fun m mem => same m (by simp [mem])

variable {fuel : ℕ} {found : ν → Bool}

theorem findLinked_eq {p : Option ν} {l : List ν} (linked : Linked next p l)
    (enough : l.length ≤ fuel) : findLinked next found fuel p = l.find? found := by
  induction l generalizing p fuel with
  | nil =>
    obtain rfl : p = none := linked
    simp [findLinked]
  | cons n rest ih =>
    obtain ⟨rfl, linked⟩ := linked
    cases fuel with
    | zero => simp at enough
    | succ fuel =>
      rw [findLinked, find?_cons, ih linked (by simpa using enough)]
      cases found n <;> rfl

variable [DecidableEq κ] [DecidableEq ν]

/-- The walk to the node before `n`, which is linked to the node behind `n`. -/
def unlinkAfter (next : ν → Option ν) (n : ν) : ℕ → ν → ν → Option ν
  | 0, _ => next
  | fuel + 1, search =>
    match next search with
    | none => next
    | some m => if m = n then update next search (next n) else unlinkAfter next n fuel m

theorem Linked.unlinkAfter {search n : ν} {rest : List ν} (linked : Linked next (next search) rest)
    (nodup : (search :: rest).Nodup) (mem : n ∈ rest) (enough : rest.length ≤ fuel) :
    Linked (OpenWifi.unlinkAfter next n fuel search) (OpenWifi.unlinkAfter next n fuel search search) (rest.erase n) ∧
      ∀ m, m ∉ search :: rest → OpenWifi.unlinkAfter next n fuel search m = next m := by
  induction rest generalizing search fuel with
  | nil => simp at mem
  | cons m others ih =>
    obtain ⟨points, linked⟩ := linked
    rw [nodup_cons] at nodup
    cases fuel with
    | zero => simp at enough
    | succ fuel =>
      simp only [OpenWifi.unlinkAfter, points]
      by_cases here : m = n
      · subst here
        rw [if_pos rfl, erase_cons_head, update_self]
        refine ⟨linked.congr fun k there => ?_, fun k absent => ?_⟩
        · refine update_of_ne ?_ _ _
          rintro rfl
          exact nodup.1 (by simp [there])
        · refine update_of_ne ?_ _ _
          rintro rfl
          simp at absent
      · rw [if_neg here, erase_cons_tail (by simpa using here)]
        have later : n ∈ others := by simpa [Ne.symm here] using mem
        obtain ⟨linked', frame⟩ := ih linked nodup.2 later (by simpa using enough)
        -- the node from which the walk started is not changed
        have start : OpenWifi.unlinkAfter next n fuel m search = some m := by
          rw [frame search nodup.1, points]
        refine ⟨⟨start, linked'⟩, fun k absent => frame k ?_⟩
        simp only [mem_cons, not_or] at absent ⊢
        exact absent.2

/-! ## Tables -/

structure Chains (κ ν : Type*) where
  head : κ → Option ν
  next : ν → Option ν

namespace Chains

variable {c : Chains κ ν} {hash : ν → κ} {members : List ν}

def push (c : Chains κ ν) (k : κ) (n : ν) : Chains κ ν where
  head := update c.head k (some n)
  next := update c.next n (c.head k)

def unlink (c : Chains κ ν) (fuel : ℕ) (k : κ) (n : ν) : Chains κ ν :=
  match c.head k with
  | none => c
  | some search =>
    if search = n then { c with head := update c.head k (c.next n) }
    else { c with next := unlinkAfter c.next n fuel search }

def find (c : Chains κ ν) (fuel : ℕ) (k : κ) (found : ν → Bool) : Option ν :=
  findLinked c.next found fuel (c.head k)

def Holds (c : Chains κ ν) (hash : ν → κ) (members : List ν) : Prop :=
  ∀ k, ∃ l, Linked c.next (c.head k) l ∧ l.Nodup ∧ ∀ n, n ∈ l ↔ n ∈ members ∧ hash n = k

omit [DecidableEq κ] [DecidableEq ν] in
theorem holds_nil (empty : ∀ k, c.head k = none) : c.Holds hash [] :=
  fun k => ⟨[], empty k, nodup_nil, by simp⟩

omit [DecidableEq κ] [DecidableEq ν] in
theorem Holds.congr (h : c.Holds hash members) {hash' : ν → κ} {members' : List ν}
    (same : ∀ n, n ∈ members' ↔ n ∈ members) (hashes : ∀ n ∈ members, hash' n = hash n) : c.Holds hash' members' := by
  intro k
  obtain ⟨l, linked, nodup, mem⟩ := h k
  refine ⟨l, linked, nodup, fun n => (mem n).trans ?_⟩
  rw [same]
  exact and_congr_right fun there => by rw [hashes n there]

theorem Holds.push (h : c.Holds hash members) {n : ν} (new : n ∉ members) :
    (c.push (hash n) n).Holds hash (n :: members) := by
  intro k
  obtain ⟨l, linked, nodup, mem⟩ := h k
  have absent : n ∉ l := fun there => new ((mem n).1 there).1
  have linked' : Linked (c.push (hash n) n).next (c.head k) l := by
    refine linked.congr fun m there => update_of_ne ?_ _ _
    rintro rfl
    exact absent there
  by_cases here : k = hash n
  · subst here
    refine ⟨n :: l, ⟨update_self .., ?_⟩, nodup_cons.2 ⟨absent, nodup⟩, fun m => ?_⟩
    · rw [show (c.push (hash n) n).next n = c.head (hash n) from update_self ..]
      exact linked'
    · rw [mem_cons, mem_cons, mem]
      constructor
      · rintro (rfl | ⟨there, same⟩)
        · exact ⟨.inl rfl, rfl⟩
        · exact ⟨.inr there, same⟩
      · rintro ⟨rfl | there, same⟩
        · exact .inl rfl
        · exact .inr ⟨there, same⟩
  · refine ⟨l, ?_, nodup, fun m => ?_⟩
    · rw [show (c.push (hash n) n).head k = c.head k from update_of_ne here _ _]
      exact linked'
    · rw [mem, mem_cons]
      refine ⟨fun there => ⟨.inr there.1, there.2⟩, ?_⟩
      rintro ⟨rfl | there, same⟩
      · exact absurd same.symm here
      · exact ⟨there, same⟩

omit [DecidableEq κ] [DecidableEq ν] in
theorem length_le {l : List ν} (nodup : l.Nodup) {k : κ} (mem : ∀ n, n ∈ l ↔ n ∈ members ∧ hash n = k) :
    l.length ≤ members.length :=
  (nodup.subperm fun n there => ((mem n).1 there).1).length_le

theorem Holds.unlink (h : c.Holds hash members) {n : ν} (there : n ∈ members) (enough : members.length ≤ fuel) :
    (c.unlink fuel (hash n) n).Holds hash (members.filter (· ≠ n)) := by
  have members' : ∀ m, m ∈ members.filter (· ≠ n) ↔ m ∈ members ∧ m ≠ n := by simp
  obtain ⟨l, linked, nodup, mem⟩ := h (hash n)
  have inChain : n ∈ l := (mem n).2 ⟨there, rfl⟩
  cases l with
  | nil => simp at inChain
  | cons search rest =>
    obtain ⟨head, linked⟩ := linked
    have short : rest.length ≤ fuel := by
      have := length_le nodup mem
      rw [length_cons] at this
      omega
    -- what becomes of the chain, and that no other chain is touched
    obtain ⟨linked', frame⟩ : Linked (c.unlink fuel (hash n) n).next
        ((c.unlink fuel (hash n) n).head (hash n)) ((search :: rest).erase n) ∧
        ∀ k, k ≠ hash n → (c.unlink fuel (hash n) n).head k = c.head k ∧
          ∀ m, m ∉ search :: rest → (c.unlink fuel (hash n) n).next m = c.next m := by
      simp only [Chains.unlink, head]
      by_cases first : search = n
      · subst first
        rw [if_pos rfl, erase_cons_head]
        refine ⟨?_, fun k other => ⟨update_of_ne other _ _, fun _ _ => rfl⟩⟩
        dsimp only
        rw [update_self]
        exact linked
      · have later : n ∈ rest := by simpa [Ne.symm first] using inChain
        obtain ⟨linked', frame⟩ := linked.unlinkAfter nodup later short
        rw [if_neg first, erase_cons_tail (by simpa using first)]
        exact ⟨⟨head, linked'⟩, fun k _ => ⟨rfl, frame⟩⟩
    intro k
    by_cases here : k = hash n
    · subst here
      refine ⟨_, linked', nodup.erase n, fun m => ?_⟩
      rw [nodup.mem_erase_iff, mem, members']
      tauto
    · obtain ⟨l', linked'', nodup', mem'⟩ := h k
      obtain ⟨head', next'⟩ := frame k here
      refine ⟨l', ?_, nodup', fun m => ?_⟩
      · rw [head']
        refine linked''.congr fun m inside => next' m fun outside => here ?_
        exact ((mem' m).1 inside).2.symm.trans ((mem m).1 outside).2
      · rw [mem', members']
        constructor
        · rintro ⟨there', same⟩
          refine ⟨⟨there', ?_⟩, same⟩
          rintro rfl
          exact here same.symm
        · rintro ⟨⟨there', -⟩, same⟩
          exact ⟨there', same⟩

omit [DecidableEq κ] [DecidableEq ν] in
theorem Holds.find_eq_some (h : c.Holds hash members) {n : ν} (there : n ∈ members)
    (matches_ : found n = true) (only : ∀ m ∈ members, found m = true → m = n)
    (enough : members.length ≤ fuel) : c.find fuel (hash n) found = some n := by
  obtain ⟨l, linked, nodup, mem⟩ := h (hash n)
  rw [find, findLinked_eq linked (Nat.le_trans (length_le nodup mem) enough)]
  cases result : l.find? found with
  | none => exact absurd matches_ (find?_eq_none.1 result n ((mem n).2 ⟨there, rfl⟩))
  | some m => rw [only m ((mem m).1 (mem_of_find?_eq_some result)).1 (find?_some result)]

omit [DecidableEq κ] [DecidableEq ν] in
theorem Holds.of_find_eq_some (h : c.Holds hash members) {n : ν} {k : κ}
    (enough : members.length ≤ fuel) (result : c.find fuel k found = some n) : n ∈ members ∧ found n = true := by
  obtain ⟨l, linked, nodup, mem⟩ := h k
  rw [find, findLinked_eq linked (Nat.le_trans (length_le nodup mem) enough)] at result
  exact ⟨((mem n).1 (mem_of_find?_eq_some result)).1, find?_some result⟩

end Chains

end OpenWifi
