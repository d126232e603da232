import OpenWifi.Kmod.Defrag
import OpenWifi.Lib.Steps
import OpenWifi.Lib.Tiling

/-!
# What is reassembled

The packet is complete when the lengths of the fragments add up to the end of the one with the flag `L`.
-/

namespace OpenWifi.Kmod

open List CapwapProtocol

abbrev Skb.Apart (fragments : List Skb) : Prop := OpenWifi.Apart Skb.fragOffset Skb.body fragments

/-- The fragments fill the packet up to `hi`. -/
abbrev Skb.Tiles (lo : ℕ) (fragments : List Skb) (hi : ℕ) : Prop :=
  OpenWifi.Tiles Skb.fragOffset Skb.body lo fragments hi

@[simp] theorem Skb.pieceEnd_eq (skb : Skb) : pieceEnd Skb.fragOffset Skb.body skb = skb.fragEnd := by
  simp [pieceEnd, Skb.fragEnd]

/-! ## The place of a fragment -/

theorem search_eq_placed {skb : Skb} {l fragments : List Skb} {atEnd : Bool}
    (h : search skb l = .placed fragments atEnd) :
    ∃ before after, l = before ++ after ∧ fragments = before ++ skb :: after ∧ atEnd = after.isEmpty ∧
      (∀ p ∈ before, p.fragOffset < skb.fragOffset) ∧
      ∀ p ∈ after.head?, skb.fragOffset < p.fragOffset ∧ skb.fragEnd ≤ p.fragOffset := by
  induction l generalizing fragments with
  | nil =>
    obtain ⟨rfl, rfl⟩ : [skb] = fragments ∧ true = atEnd := by simpa [search] using h
    exact ⟨[], [], rfl, rfl, rfl, by simp, by simp⟩
  | cons next rest ih =>
    rw [search] at h
    split at h
    · simp at h
    next ne =>
      split at h
      next lt =>
        split at h
        next le =>
          obtain ⟨rfl, rfl⟩ : skb :: next :: rest = fragments ∧ false = atEnd := by simpa using h
          exact ⟨[], next :: rest, rfl, rfl, rfl, by simp, by simpa using ⟨lt, le⟩⟩
        · simp at h
      next ge =>
        cases found : search skb rest with
        | duplicate | overlap => simp [found, Place.cons] at h
        | placed others atEnd' =>
          obtain ⟨rfl, rfl⟩ : next :: others = fragments ∧ atEnd' = atEnd := by
            simpa [found, Place.cons] using h
          obtain ⟨before, after, rfl, rfl, eq, lower, upper⟩ := ih found
          refine ⟨next :: before, after, rfl, rfl, eq, ?_, upper⟩
          simp only [mem_cons, forall_eq_or_imp]
          exact ⟨by omega, lower⟩

namespace Fragment

variable {f f' : Fragment} {skb : Skb}

/-- The pointer to the last fragment is right, the fragments do not overlap, and the lengths are those of the list; the
total length is the end of the one with the flag `L`. -/
structure Ordered (f : Fragment) : Prop where
  lastfragment : f.lastfragment = f.fragments.getLast?
  apart : Skb.Apart f.fragments
  recvlength : f.recvlength = (f.fragments.map Skb.fragLength).sum
  totallength : f.last = true → (∃ p ∈ f.fragments, p.isLast = true ∧ p.fragEnd = f.totallength) ∧
    ∀ p ∈ f.fragments, p.fragEnd ≤ f.totallength

theorem ordered_init (fragmentid : ℕ) : (init fragmentid).Ordered :=
  ⟨rfl, List.Pairwise.nil, rfl, by simp [init]⟩

/-- A fragment that comes between two others does not overlap the one before it, and the packet ends with the last
fragment. -/
structure Fits (f : Fragment) (skb : Skb) : Prop where
  before : ∀ p ∈ f.fragments, ∀ q ∈ f.fragments, p.fragOffset < skb.fragOffset → skb.fragOffset < q.fragOffset →
    p.fragEnd ≤ skb.fragOffset
  within : f.last = true → skb.fragEnd ≤ f.totallength
  ends : skb.isLast = true → ∀ p ∈ f.fragments, p.fragEnd ≤ skb.fragEnd

theorem fits_init (fragmentid : ℕ) (skb : Skb) : (init fragmentid).Fits skb :=
  ⟨by simp [init], by simp [init], by simp [init]⟩

theorem position_eq_placed (ordered : f.Ordered) {fragments : List Skb} {atEnd : Bool}
    (h : f.position skb = .placed fragments atEnd) :
    ∃ before after, f.fragments = before ++ after ∧ fragments = before ++ skb :: after ∧
      atEnd = after.isEmpty ∧ (∀ p ∈ before, p.fragOffset < skb.fragOffset) ∧
      (∀ p ∈ after.head?, skb.fragOffset < p.fragOffset ∧ skb.fragEnd ≤ p.fragOffset) ∧
      (after = [] → ∀ p ∈ before, p.fragEnd ≤ skb.fragOffset) := by
  have last := ordered.lastfragment
  rw [position] at h
  cases known : f.lastfragment with
  | none =>
    rw [known] at h
    have empty : f.fragments = [] := getLast?_eq_none_iff.1 (last.symm.trans known)
    obtain ⟨rfl, rfl⟩ : [skb] = fragments ∧ true = atEnd := by simpa using h
    exact ⟨[], [], empty, rfl, rfl, by simp, by simp, by simp⟩
  | some prev =>
    simp only [known] at h
    obtain ⟨others, eq⟩ := getLast?_eq_some_iff.1 (last.symm.trans known)
    split at h
    next lt =>
      split at h
      next le =>
        obtain ⟨rfl, rfl⟩ : f.fragments ++ [skb] = fragments ∧ true = atEnd := by simpa using h
        -- the other fragments end before the last one starts
        have front : ∀ p ∈ f.fragments, p.fragOffset < skb.fragOffset ∧ p.fragEnd ≤ skb.fragOffset := by
          intro p mem
          rw [eq] at mem
          rcases mem_append.1 mem with mem | mem
          · have apart := ordered.apart
            rw [eq] at apart
            have := (pairwise_append.1 apart).2.2 p mem prev (by simp)
            rw [Skb.pieceEnd_eq] at this
            have := Skb.fragEnd.eq_1 p
            omega
          · rw [mem_singleton.1 mem]
            exact ⟨lt, le⟩
        exact ⟨f.fragments, [], by simp, rfl, rfl, fun p mem => (front p mem).1, by simp,
          fun _ p mem => (front p mem).2⟩
      · simp at h
    next ge =>
      obtain ⟨before, after, split, placed, atEnd, lower, upper⟩ := search_eq_placed h
      refine ⟨before, after, split, placed, atEnd, lower, upper, fun empty => absurd (lower prev ?_) ge⟩
      have mem : prev ∈ f.fragments := by simp [eq]
      rwa [split, empty, append_nil] at mem

theorem Ordered.insert (ordered : f.Ordered) (fits : f.Fits skb) {fragments : List Skb} {atEnd : Bool}
    (h : f.position skb = .placed fragments atEnd) : (f.insert skb fragments atEnd).Ordered := by
  obtain ⟨before, after, eq, rfl, rfl, lower, upper, appended⟩ := position_eq_placed ordered h
  have apart := ordered.apart
  rw [eq] at apart
  obtain ⟨apart₁, apart₂, apart₃⟩ := pairwise_append.1 apart
  have behind : ∀ p ∈ after, skb.fragEnd ≤ p.fragOffset := by
    cases after with
    | nil => simp
    | cons next rest =>
      have first := (upper next (by simp)).2
      intro p mem
      rcases mem_cons.1 mem with rfl | mem
      · exact first
      · have := (pairwise_cons.1 apart₂).1 p mem
        rw [Skb.pieceEnd_eq, Skb.fragEnd] at this
        omega
  have front : ∀ p ∈ before, p.fragEnd ≤ skb.fragOffset := by
    intro p mem
    cases after with
    | nil => exact appended rfl p mem
    | cons next rest =>
      exact fits.before p (by simp [eq, mem]) next (by simp [eq]) (lower p mem) (upper next (by simp)).1
  refine ⟨?_, ?_, ?_, fun last => ?_⟩
  · simp only [Fragment.insert]
    cases after with
    | nil => simp
    | cons next rest =>
      rw [isEmpty_cons, if_neg (by simp), ordered.lastfragment, eq]
      simp [getLast?_append, getLast?_cons]
  · refine pairwise_append.2 ⟨apart₁, pairwise_cons.2 ⟨?_, apart₂⟩, ?_⟩
    · simpa using behind
    · intro p mem q mem'
      rcases mem_cons.1 mem' with rfl | mem'
      · simpa using front p mem
      · exact apart₃ p mem q mem'
  · simp only [Fragment.insert, ordered.recvlength, eq, map_append, sum_append, map_cons, sum_cons]
    omega
  · have members : ∀ p, p ∈ before ++ skb :: after ↔ p = skb ∨ p ∈ f.fragments := by
      intro p
      simp only [eq, mem_append, mem_cons]
      tauto
    simp only [Fragment.insert, members] at last ⊢
    cases flag : skb.isLast with
    | true =>
      rw [if_pos rfl]
      refine ⟨⟨skb, .inl rfl, flag, rfl⟩, ?_⟩
      rintro p (rfl | mem)
      · exact le_rfl
      · exact fits.ends flag p mem
    | false =>
      rw [flag, Bool.or_false] at last
      rw [if_neg (by simp)]
      obtain ⟨⟨p, mem, isLast, ends⟩, below⟩ := ordered.totallength last
      refine ⟨⟨p, .inr mem, isLast, ends⟩, ?_⟩
      rintro q (rfl | mem)
      · exact fits.within last
      · exact below q mem

def Sound (f : Fragment) : Prop := f.enable = true → f.Ordered

def Takes (f : Fragment) (skb : Skb) : Prop := f.enable = true → f.fragmentid = skb.fragId → f.Fits skb

theorem Sound.opened (sound : f.Sound) (skb : Skb) : (f.opened skb).Ordered := by
  rw [Fragment.opened]
  split
  next enable => exact sound enable
  · exact ordered_init _

theorem Takes.opened (takes : f.Takes skb) (same : ¬ (f.enable = true ∧ f.fragmentid ≠ skb.fragId)) :
    (f.opened skb).Fits skb := by
  rw [Fragment.opened]
  split
  next enable => exact takes enable (by simpa [enable] using same)
  · exact fits_init _ _

theorem Sound.receive (sound : f.Sound) (takes : f.Takes skb) : (f.receive skb).2.Sound := by
  rw [Fragment.receive]
  split
  · exact sound
  next same =>
    have ordered := sound.opened skb
    split
    · exact fun _ => ordered
    · exact fun enable => by simp [free] at enable
    next fragments atEnd placed =>
      dsimp only
      split
      · exact fun enable => by simp [free] at enable
      · exact fun _ => ordered.insert (takes.opened same) placed

theorem receive_eq_some {packet : List UInt8} (h : (f.receive skb).1 = some packet) :
    ∃ f', f.inserted skb = some f' ∧ f'.Complete ∧ packet = f'.reasm ∧
      ¬ (f.enable = true ∧ f.fragmentid ≠ skb.fragId) := by
  rw [Fragment.receive] at h
  split at h
  · simp at h
  next same =>
    split at h
    · simp at h
    · simp at h
    next fragments atEnd placed =>
      dsimp only at h
      split at h
      next complete =>
        refine ⟨_, ?_, complete, (Option.some.inj h).symm, same⟩
        simp [inserted, placed]
      · simp at h

theorem Ordered.tiles (ordered : f.Ordered) (complete : f.Complete) : Skb.Tiles 0 f.fragments f.totallength := by
  refine tiles_of_apart ordered.apart (by simp) ?_ ?_
  · simpa using (ordered.totallength complete.1).2
  · rw [← complete.2, ordered.recvlength]
    simp

end Fragment

def Fits (queues : Queues) (skb : Skb) : Prop := (queues (slot skb)).Takes skb

def Sound (queues : Queues) : Prop := ∀ i, (queues i).Sound

theorem Sound.deliver {queues queues' : Queues} {skb : Skb} (sound : Sound queues) (fits : Fits queues skb)
    (delivered : deliver queues skb = some queues') : Sound queues' := by
  cases delivered
  rw [defrag]
  split
  · exact sound
  · intro i
    dsimp only
    rw [Function.update_apply]
    split
    · exact (sound (slot skb)).receive fits
    · exact sound i

/-- Whenever a packet is returned, in a run in which all fragments fit, the fragments in the slot fill it exactly and
give its bytes. -/
theorem run_tiles {queues queues' : Queues} {skbs : List Skb} {skb : Skb} {packet : List UInt8}
    (start : ∀ i, (queues i).enable = false) (fits : Along deliver Fits queues skbs)
    (run : runFrom deliver queues skbs = some queues') (fitsLast : Fits queues' skb)
    (out : (defrag queues' skb).1 = some packet) :
    ∃ f, (queues' (slot skb)).inserted skb = some f ∧ f.fragments.Pairwise (fun p q => p.fragEnd ≤ q.fragOffset) ∧
      Skb.Tiles 0 f.fragments f.totallength ∧ (∃ p ∈ f.fragments, p.isLast = true ∧ p.fragEnd = f.totallength) ∧
      ∃ header body, packet = header ++ body ∧ body.length = f.totallength ∧
        ∀ p ∈ f.fragments, ∀ k < p.fragLength, body[p.fragOffset + k]? = p.body[k]? := by
  have sound : Sound queues' := fits.invariant (fun _ _ _ => Sound.deliver)
    (fun i enable => by simp [start i] at enable) run
  rw [defrag] at out
  split at out
  · simp at out
  · obtain ⟨f, inserted, complete, rfl, same⟩ := Fragment.receive_eq_some out
    have ordered : f.Ordered := by
      have opened := (sound (slot skb)).opened skb
      rw [Fragment.inserted] at inserted
      split at inserted
      next placed =>
        rw [← Option.some.inj inserted]
        exact opened.insert (Fragment.Takes.opened fitsLast same) placed
      · simp at inserted
    have tiles := ordered.tiles complete
    refine ⟨f, inserted, ?_, tiles, (ordered.totallength complete.1).1, ?_⟩
    · simpa [OpenWifi.Apart] using ordered.apart
    · obtain ⟨first, rest, eq⟩ : ∃ first rest, f.fragments = first :: rest := by
        obtain ⟨⟨p, mem, -⟩, -⟩ := ordered.totallength complete.1
        exact exists_cons_of_ne_nil (ne_nil_of_mem mem)
      refine ⟨clearFragment (first.data.take first.headersize), f.fragments.flatMap Skb.body, ?_, ?_, ?_⟩
      · simp [Fragment.reasm, eq]
      · simpa using tiles.length_flatMap
      · intro p mem k within
        simpa using tiles.getElem?_flatMap mem (by simpa using within)

theorem length_piece (offset : ℕ) (last : Bool) (body : List UInt8) :
    ([0, 16, 0, if last then 192 else 128, 0, 1] ++ be16 offset ++ body).length = 8 + body.length := by
  simp [be16]
  omega

def piece (offset : ℕ) (last : Bool) (body : List UInt8) (small : body.length ≤ 64) : Skb where
  data := [0, 16, 0, if last then 192 else 128, 0, 1] ++ be16 offset ++ body
  header_le := (length_piece ..).symm ▸ Nat.le_add_right 8 _
  length_lt := (length_piece ..).symm ▸ Nat.lt_of_le_of_lt (Nat.add_le_add_left small 8) (by decide)

def noFragments : Queues := fun _ => (Fragment.init 0).free

def firstHalf : Skb := piece 0 false (List.replicate 8 1) (by decide)

def secondHalf : Skb := piece 8 true (List.replicate 8 2) (by decide)

theorem run_tiles_halves : ∃ queues' packet, runFrom deliver noFragments [firstHalf] = some queues' ∧
    (defrag queues' secondHalf).1 = some packet ∧ ∃ f, (queues' (slot secondHalf)).inserted secondHalf = some f ∧
      f.fragments.Pairwise (fun p q => p.fragEnd ≤ q.fragOffset) ∧ Skb.Tiles 0 f.fragments f.totallength ∧
      (∃ p ∈ f.fragments, p.isLast = true ∧ p.fragEnd = f.totallength) ∧
      ∃ header body, packet = header ++ body ∧ body.length = f.totallength ∧
        ∀ p ∈ f.fragments, ∀ k < p.fragLength, body[p.fragOffset + k]? = p.body[k]? := by
  obtain ⟨queues', packet, run, out, enable, last, fragments⟩ : ∃ queues' packet,
      runFrom deliver noFragments [firstHalf] = some queues' ∧ (defrag queues' secondHalf).1 = some packet ∧
      (queues' (slot secondHalf)).enable = true ∧ (queues' (slot secondHalf)).last = false ∧
      (queues' (slot secondHalf)).fragments = [firstHalf] := ⟨_, _, rfl, rfl, by decide +kernel⟩
  have fits : Fits queues' secondHalf := by
    intro _ _
    refine ⟨?_, by simp [last], ?_⟩ <;> rw [fragments] <;> decide
  have fitsFirst : Along deliver Fits noFragments [firstHalf] :=
    ⟨fun enable => by simp [noFragments, Fragment.free] at enable, fun _ _ => trivial⟩
  exact ⟨queues', packet, run, out, run_tiles (fun _ => rfl) fitsFirst run fits out⟩

/-- The lengths of three fragments add up to 32 and a packet is returned, but two overlap and none has the bytes from
offset 16 to 24. -/
theorem overlap_hides_gap :
    ∃ queues' f packet, runFrom deliver noFragments [piece 0 false (List.replicate 16 1) (by decide),
      piece 24 true (List.replicate 8 2) (by decide)] = some queues' ∧
    (queues' 1).inserted (piece 8 false (List.replicate 8 3) (by decide)) = some f ∧
    (defrag queues' (piece 8 false (List.replicate 8 3) (by decide))).1 = some packet ∧
    ¬ f.fragments.Pairwise (fun p q => p.fragEnd ≤ q.fragOffset) ∧
    f.totallength = 32 ∧ ∀ p ∈ f.fragments, ¬ (p.fragOffset ≤ 16 ∧ 16 < p.fragEnd) :=
  ⟨_, _, _, rfl, rfl, rfl, by decide +kernel⟩

end OpenWifi.Kmod
