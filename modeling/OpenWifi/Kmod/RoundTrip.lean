import OpenWifi.Kmod.ForwardData
import OpenWifi.Kmod.Reassembly
import Mathlib.Data.List.Induction

/-!
# Fragments of one packet

What `sc_capwap_forwarddata` sends is reassembled by `sc_capwap_defrag`, in whatever order the fragments
arrive, with repetitions, and among fragments of other packets (`forwarddata_roundTrip`).
-/

namespace OpenWifi.Kmod

open List CapwapProtocol Fragment Skb Outgoing

/-- Fragments with one id that fill a packet from the offset `lo` on, none of them empty; the one at the
end has the flag `L`. -/
structure Chain (id lo : ℕ) (packet : List UInt8) (chain : List Skb) : Prop where
  fragId : ∀ p ∈ chain, p.fragId = id
  pos : ∀ p ∈ chain, 0 < p.fragLength
  tiles : Skb.Tiles lo chain (lo + packet.length)
  bodies : chain.flatMap body = packet
  last : ∀ p ∈ chain, p.isLast = decide (p.fragEnd = lo + packet.length)

namespace Outgoing

variable {out : Outgoing} {id : ℕ}

structure Proper (out : Outgoing) : Prop where
  aligned : 4 ∣ out.reserve
  header : out.reserve ≤ 124
  room : out.reserve + 8 ≤ out.mtu
  mtu : out.mtu < 65536

theorem Proper.size_div (proper : out.Proper) (fragmentoffset : ℕ) :
    out.size fragmentoffset / 4 < 32 ∧ out.size fragmentoffset / 4 * 4 = out.size fragmentoffset := by
  have aligned := proper.aligned
  have header := proper.header
  unfold size
  split
  · omega
  · simp [headerSize]

theorem header_eq (out : Outgoing) (fragment : Option ℕ) (fragmentoffset : ℕ) (last : Bool) :
    ∃ w m options, out.header fragment fragmentoffset last =
      headerBytes out (out.size fragmentoffset / 4) fragment.isSome (fragment.isSome && last) w m
        (fragment.getD 0) (if fragment.isSome then fragmentoffset % 65536 else 0) ++ options := by
  have same : (if fragmentoffset == 0 then out.reserve else headerSize) = out.size fragmentoffset := by
    by_cases first : fragmentoffset = 0 <;> simp [size, first]
  unfold header
  dsimp only
  rw [same]
  exact ⟨_, _, _, rfl⟩

theorem exists_skb (proper : out.Proper) (small : id < 65536) {fragmentoffset : ℕ}
    (offsetLt : fragmentoffset < 65536) (last : Bool) (body : List UInt8)
    (fits : body.length ≤ out.mtu - out.size fragmentoffset) :
    ∃ p : Skb, p.data = out.header (some id) fragmentoffset last ++ body ∧ p.fragId = id ∧
      p.fragOffset = fragmentoffset ∧ p.isLast = last ∧ p.body = body ∧ p.headersize = out.size fragmentoffset := by
  obtain ⟨hlen, exact_⟩ := proper.size_div fragmentoffset
  have sizeLe := out.size_le_reserve fragmentoffset
  have room := proper.room
  have mtu := proper.mtu
  have headerLen : (out.header (some id) fragmentoffset last).length = out.size fragmentoffset := out.length_header ..
  have headerLe : headerSize ≤ out.size fragmentoffset := by
    unfold size reserve
    split <;> omega
  generalize headerEq : out.header (some id) fragmentoffset last = header at *
  have dataLen : (header ++ body).length = out.size fragmentoffset + body.length := by
    rw [length_append, headerLen]
  let p : Skb := ⟨header ++ body, by omega, by omega⟩
  obtain ⟨w, m, options, eq⟩ : ∃ w m options, header =
      headerBytes out (out.size fragmentoffset / 4) true last w m id fragmentoffset ++ options := by
    rw [← headerEq]
    simpa [Nat.mod_eq_of_lt offsetLt] using header_eq out (some id) fragmentoffset last
  have data : p.data = headerBytes out (out.size fragmentoffset / 4) true last w m id fragmentoffset ++
      (options ++ body) := by
    rw [← append_assoc, ← eq]
  have size : p.headersize = header.length := by
    rw [Skb.headersize, data, getHlen_headerBytes out hlen, exact_, headerLen]
  refine ⟨p, rfl, ?_, ?_, ?_, ?_, ?_⟩
  · rw [Skb.fragId, data, fragId_headerBytes out _ _ _ _ _ small]
  · rw [Skb.fragOffset, data, fragOff_headerBytes out _ _ _ _ _ _ offsetLt]
  · rw [Skb.isLast, data, isFlag_l_headerBytes]
  · rw [Skb.body, size]
    exact drop_left
  · rw [size, headerLen]

theorem pieces_unfragmented {packet : List UInt8} (nonempty : packet ≠ [])
    (fits : packet.length + out.reserve ≤ out.mtu) :
    ∃ header, out.pieces none packet.length 0 packet = [header ++ packet] ∧ header.length = out.reserve ∧
      isFlag .f (header ++ packet) = false := by
  have lengthPos : 0 < packet.length := length_pos_iff.2 nonempty
  obtain ⟨k, succ⟩ : ∃ k, packet.length = k + 1 := ⟨packet.length - 1, by omega⟩
  have size : out.size 0 = out.reserve := if_pos rfl
  have chunk : out.chunk 0 packet.length = packet.length := by
    rw [chunk, size]
    exact if_pos (by omega)
  have done : ∀ fuel, out.pieces none fuel packet.length [] = [] := by
    rintro (_ | fuel) <;> simp [pieces]
  refine ⟨out.header none 0 true, ?_, by rw [length_header, size], ?_⟩
  · nth_rewrite 1 [succ]
    rw [pieces, if_neg nonempty]
    dsimp only
    rw [chunk, take_length, drop_length, Nat.zero_add, done, beq_self_eq_true]
  · obtain ⟨w, m, options, eq⟩ := header_eq out none 0 true
    rw [eq, append_assoc, isFlag_f_headerBytes]
    rfl

theorem exists_chain (proper : out.Proper) (small : id < 65536) {fuel fragmentoffset : ℕ}
    {packet : List UInt8} (enough : packet.length ≤ fuel) (short : fragmentoffset + packet.length < 65536) :
    ∃ chain : List Skb, chain.map data = out.pieces (some id) fuel fragmentoffset packet ∧
      (∀ p ∈ chain.head?, p.headersize = out.size fragmentoffset) ∧ Chain id fragmentoffset packet chain := by
  induction fuel generalizing fragmentoffset packet with
  | zero =>
    obtain rfl : packet = [] := eq_nil_of_length_eq_zero (by omega)
    exact ⟨[], rfl, by simp, by simp, by simp, rfl, rfl, by simp⟩
  | succ fuel ih =>
    by_cases empty : packet = []
    · subst empty
      exact ⟨[], by simp [pieces], by simp, by simp, by simp, rfl, rfl, by simp⟩
    have lengthPos : 0 < packet.length := length_pos_iff.2 empty
    have chunkLe := out.chunk_le fragmentoffset packet.length
    have chunkPos := chunk_pos proper.room fragmentoffset lengthPos
    have chunkFits : out.chunk fragmentoffset packet.length ≤ out.mtu - out.size fragmentoffset := by
      unfold chunk
      dsimp only
      split <;> omega
    rw [pieces, if_neg empty]
    dsimp only
    generalize out.chunk fragmentoffset packet.length = length at *
    obtain ⟨p, data, fragId, fragOffset, isLast, body, size⟩ := exists_skb proper small
      (show fragmentoffset < 65536 by omega) (packet.length == length) (packet.take length)
      (by simpa using .inl chunkFits)
    have fragLength : p.fragLength = length := by
      rw [← length_body, body, length_take]
      omega
    have fragEnd : p.fragEnd = fragmentoffset + length := by rw [fragEnd, fragOffset, fragLength]
    obtain ⟨chain, map, -, others⟩ := @ih (fragmentoffset + length) (packet.drop length) (by simp; omega)
      (by simp; omega)
    have total : fragmentoffset + length + (packet.drop length).length = fragmentoffset + packet.length := by
      rw [length_drop]
      omega
    refine ⟨p :: chain, by rw [map_cons, map, data], by simpa using size, ?_, ?_, ?_, ?_, ?_⟩
    · simpa [fragId] using others.fragId
    · simpa [fragLength, chunkPos] using others.pos
    · refine ⟨fragOffset, ?_⟩
      rw [pieceEnd_eq, fragEnd, ← total]
      exact others.tiles
    · rw [flatMap_cons, body, others.bodies, take_append_drop]
    · rw [← total]
      simp only [mem_cons, forall_eq_or_imp]
      refine ⟨?_, others.last⟩
      rw [isLast, fragEnd, total, Bool.eq_iff_iff, beq_iff_eq, decide_eq_true_eq]
      omega

end Outgoing

variable {skb : Skb} {before after : List Skb}

theorem search_between (lower : ∀ p ∈ before, p.fragOffset < skb.fragOffset)
    (upper : ∀ p ∈ after, skb.fragOffset < p.fragOffset ∧ skb.fragEnd ≤ p.fragOffset) :
    search skb (before ++ after) = .placed (before ++ skb :: after) after.isEmpty := by
  induction before with
  | nil =>
    cases after with
    | nil => rfl
    | cons next rest =>
      obtain ⟨lt, le⟩ := upper next (by simp)
      rw [nil_append, search, if_neg (by omega), if_pos lt, if_pos le]
      rfl
  | cons first others ih =>
    have lt := lower first (by simp)
    rw [cons_append, search, if_neg (by omega), if_neg (by omega), ih fun p mem => lower p (by simp [mem])]
    rfl

theorem search_duplicate (lower : ∀ p ∈ before, p.fragOffset < skb.fragOffset) :
    search skb (before ++ skb :: after) = .duplicate := by
  induction before with
  | nil => simp [search]
  | cons first others ih =>
    have lt := lower first (by simp)
    rw [cons_append, search, if_neg (by omega), if_neg (by omega), ih fun p mem => lower p (by simp [mem])]
    rfl

namespace Fragment

variable {f : Fragment}

theorem position_between (last : f.lastfragment = f.fragments.getLast?) (eq : f.fragments = before ++ after)
    (lower : ∀ p ∈ before, p.fragOffset < skb.fragOffset ∧ p.fragEnd ≤ skb.fragOffset)
    (upper : ∀ p ∈ after, skb.fragOffset < p.fragOffset ∧ skb.fragEnd ≤ p.fragOffset) :
    f.position skb = .placed (before ++ skb :: after) after.isEmpty := by
  have walk := search_between (fun p mem => (lower p mem).1) upper
  rw [position, last, eq]
  cases after with
  | nil =>
    rw [append_nil]
    cases known : before.getLast? with
    | none => simp [getLast?_eq_none_iff.1 known]
    | some prev =>
      obtain ⟨lt, le⟩ := lower prev (mem_of_getLast? known)
      simp [lt, le]
  | cons next rest =>
    obtain ⟨prev, known⟩ : ∃ prev, (next :: rest).getLast? = some prev := ⟨_, getLast?_cons⟩
    have ge := (upper prev (mem_of_getLast? known)).1
    rw [getLast?_append, known, Option.some_or]
    dsimp only
    rw [if_neg (by omega), walk]

theorem position_duplicate (last : f.lastfragment = f.fragments.getLast?)
    (eq : f.fragments = before ++ skb :: after) (lower : ∀ p ∈ before, p.fragOffset < skb.fragOffset)
    (upper : ∀ p ∈ after, skb.fragOffset < p.fragOffset) : f.position skb = .duplicate := by
  obtain ⟨prev, known⟩ : ∃ prev, (skb :: after).getLast? = some prev := ⟨_, getLast?_cons⟩
  have ge : ¬ prev.fragOffset < skb.fragOffset := by
    rcases mem_cons.1 (mem_of_getLast? known) with rfl | mem
    · exact lt_irrefl _
    · exact (upper prev mem).not_gt
  rw [position, last, eq, getLast?_append, known, Option.some_or]
  dsimp only
  rw [if_neg ge, search_duplicate lower]

end Fragment

section Collect

variable {id : ℕ} {packet : List UInt8} {chain pre : List Skb} {f : Fragment}

theorem Chain.split (h : Chain id 0 packet chain) (mem : skb ∈ chain) : ∃ before after, chain = before ++ skb :: after ∧
      (∀ p ∈ before, p.fragOffset < skb.fragOffset ∧ p.fragEnd ≤ skb.fragOffset) ∧
      ∀ p ∈ after, skb.fragOffset < p.fragOffset ∧ skb.fragEnd ≤ p.fragOffset := by
  obtain ⟨before, after, eq⟩ := append_of_mem mem
  have apart := h.tiles.apart
  rw [eq] at apart
  obtain ⟨-, later, between⟩ := pairwise_append.1 apart
  refine ⟨before, after, eq, fun p mem => ?_, fun p mem => ?_⟩
  · have le := between p mem skb (by simp)
    have pos := h.pos p (by simp [eq, mem])
    rw [pieceEnd_eq] at le
    exact ⟨by unfold fragEnd at le; omega, le⟩
  · have le := (pairwise_cons.1 later).1 p mem
    have pos := h.pos skb (by simp [eq])
    rw [pieceEnd_eq] at le
    exact ⟨by unfold fragEnd at le; omega, le⟩

/-- The slot has the fragments of the chain that are among `pre`. -/
structure Holding (id : ℕ) (chain pre : List Skb) (f : Fragment) : Prop where
  enable : f.enable = true
  fragmentid : f.fragmentid = id
  fragments : f.fragments = chain.filter (· ∈ pre)
  ordered : f.Ordered
  last : ∀ p ∈ f.fragments, p.isLast = true → f.last = true

theorem holding_init (none : ∀ p ∈ chain, p ∉ pre) : Holding id chain pre (init id) := by
  refine ⟨rfl, rfl, ?_, ordered_init id, by simp [init]⟩
  exact (filter_eq_nil_iff.2 (by simpa using none)).symm

theorem Holding.mem (holding : Holding id chain pre f) {p : Skb} : p ∈ f.fragments ↔ p ∈ chain ∧ p ∈ pre := by
  simp [holding.fragments]

section

variable (h : Chain id 0 packet chain) (holding : Holding id chain pre f)
include h holding

theorem Holding.duplicate (mem : skb ∈ chain) (known : skb ∈ pre) : f.position skb = .duplicate := by
  obtain ⟨before, after, rfl, lower, upper⟩ := h.split mem
  have eq := holding.fragments
  rw [filter_append, filter_cons_of_pos (by simpa using known)] at eq
  exact position_duplicate holding.ordered.lastfragment eq
    (fun p mem => (lower p (mem_of_mem_filter mem)).1)
    fun p mem => (upper p (mem_of_mem_filter mem)).1

theorem Holding.insert (mem : skb ∈ chain) (new : skb ∉ pre) :
    ∃ fragments atEnd, f.position skb = .placed fragments atEnd ∧
      Holding id chain (pre ++ [skb]) (f.insert skb fragments atEnd) := by
  obtain ⟨before, after, eq, lower, upper⟩ := h.split mem
  have stored := holding.fragments
  rw [eq, filter_append, filter_cons_of_neg (by simpa using new)] at stored
  have position := Fragment.position_between holding.ordered.lastfragment stored
    (fun p mem => lower p (mem_of_mem_filter mem)) fun p mem => upper p (mem_of_mem_filter mem)
  refine ⟨_, _, position, holding.enable, holding.fragmentid, ?_, ?_, ?_⟩
  · -- the fragments before and behind it are others
    have same : ∀ l : List Skb, (∀ p ∈ l, p ≠ skb) → l.filter (· ∈ pre) = l.filter (· ∈ pre ++ [skb]) := by
      intro l others
      refine filter_congr fun p mem => ?_
      simp [others p mem]
    simp only [Fragment.insert]
    rw [eq, filter_append, filter_cons_of_pos (by simp), ← same before, ← same after]
    · rintro p there rfl
      exact lt_irrefl _ (upper p there).1
    · rintro p there rfl
      exact lt_irrefl _ (lower p there).1
  · refine holding.ordered.insert ⟨fun p stored _ _ lt _ => ?_, fun last => ?_, fun isLast p stored => ?_⟩ position
    · have there := (holding.mem.1 stored).1
      rw [eq, mem_append, mem_cons] at there
      rcases there with there | rfl | there
      · exact (lower p there).2
      · exact absurd lt (lt_irrefl _)
      · exact absurd lt (upper p there).1.not_gt
    · obtain ⟨⟨p, stored, isLast, ends⟩, -⟩ := holding.ordered.totallength last
      have isEnd : p.fragEnd = 0 + packet.length := by
        simpa [h.last p (holding.mem.1 stored).1] using isLast
      rw [← ends, isEnd, ← pieceEnd_eq]
      exact (h.tiles.bounds skb mem).2
    · have isEnd : skb.fragEnd = 0 + packet.length := by simpa [h.last skb mem] using isLast
      rw [isEnd, ← pieceEnd_eq]
      exact (h.tiles.bounds p (holding.mem.1 stored).1).2
  · intro p here isLast
    have either : p = skb ∨ p ∈ f.fragments := by
      simp only [Fragment.insert, mem_append, mem_cons] at here
      rw [stored, mem_append]
      tauto
    simp only [Fragment.insert, Bool.or_eq_true]
    rcases either with rfl | old
    · exact .inr isLast
    · exact .inl (holding.last p old isLast)

theorem Holding.complete_iff (nonempty : packet ≠ []) : f.Complete ↔ ∀ p ∈ chain, p ∈ pre := by
  have total : f.last = true → f.totallength = packet.length := by
    intro last
    obtain ⟨⟨p, stored, isLast, ends⟩, -⟩ := holding.ordered.totallength last
    have isEnd : p.fragEnd = 0 + packet.length := by
      simpa [h.last p (holding.mem.1 stored).1] using isLast
    omega
  constructor
  · intro complete p mem
    by_contra missing
    -- another fragment would have the first byte of the missing one
    have tiles := holding.ordered.tiles complete
    have pos := h.pos p mem
    have bound := (h.tiles.bounds p mem).2
    rw [pieceEnd_eq, fragEnd] at bound
    obtain ⟨q, stored, low, high⟩ := tiles.cover (Nat.zero_le p.fragOffset) (by rw [total complete.1]; omega)
    obtain ⟨there, known⟩ := holding.mem.1 stored
    obtain ⟨before, after, eq, lower, upper⟩ := h.split mem
    rw [pieceEnd_eq] at high
    rw [eq, mem_append, mem_cons] at there
    rcases there with there | rfl | there
    · exact absurd high (lower q there).2.not_gt
    · exact missing known
    · exact absurd low (upper q there).1.not_ge
  · intro all
    have fragments : f.fragments = chain := by
      rw [holding.fragments]
      exact filter_eq_self.2 (by simpa using all)
    -- the fragment with the last byte has the flag
    have lengthPos : 0 < packet.length := length_pos_iff.2 nonempty
    obtain ⟨p, mem, low, high⟩ := h.tiles.cover (x := packet.length - 1) (by omega) (by omega)
    have bound := (h.tiles.bounds p mem).2
    rw [pieceEnd_eq] at high bound
    have isLast : p.isLast = true := by
      rw [h.last p mem]
      simp
      omega
    have last := holding.last p (by rwa [fragments]) isLast
    refine ⟨last, ?_⟩
    have sum := h.tiles.sum_eq
    rw [holding.ordered.recvlength, total last, fragments]
    simpa using sum

end

theorem Holding.congr (holding : Holding id chain pre f) {pre' : List Skb}
    (same : ∀ p ∈ chain, p ∈ pre ↔ p ∈ pre') : Holding id chain pre' f := by
  refine ⟨holding.enable, holding.fragmentid, ?_, holding.ordered, holding.last⟩
  rw [holding.fragments]
  exact filter_congr fun p mem => by simp [same p mem]

/-- The slot is free, and no fragment of the chain is among `pre`, or it has those that are. -/
def Collected (id : ℕ) (chain pre : List Skb) (f : Fragment) : Prop :=
  f.enable = false ∧ (∀ p ∈ chain, p ∉ pre) ∨ Holding id chain pre f

theorem Collected.opened (h : Collected id chain pre f) (own : skb.fragId = id) :
    Holding id chain pre (f.opened skb) ∧ ¬ (f.enable = true ∧ f.fragmentid ≠ skb.fragId) := by
  rcases h with ⟨free, none⟩ | holding
  · rw [Fragment.opened, free, if_neg (by simp), own]
    exact ⟨holding_init none, by simp⟩
  · rw [Fragment.opened, if_pos holding.enable, own]
    exact ⟨holding, fun busy => busy.2 holding.fragmentid⟩

theorem Collected.receive_more (h : Chain id 0 packet chain) (nonempty : packet ≠ [])
    (collected : Collected id chain pre f) (mem : skb ∈ chain) (missing : ¬ ∀ p ∈ chain, p ∈ pre ++ [skb]) :
    (f.receive skb).1 = none ∧ Collected id chain (pre ++ [skb]) (f.receive skb).2 := by
  obtain ⟨holding, open_⟩ := collected.opened (h.fragId skb mem)
  rw [Fragment.receive, if_neg open_]
  by_cases known : skb ∈ pre
  · rw [holding.duplicate h mem known]
    refine ⟨rfl, .inr (holding.congr fun p _ => ?_)⟩
    rw [mem_append, mem_singleton]
    exact ⟨.inl, fun either => either.elim (fun old => old) fun same => same ▸ known⟩
  · obtain ⟨fragments, atEnd, position, inserted⟩ := holding.insert h mem known
    rw [position]
    dsimp only
    rw [if_neg ((inserted.complete_iff h nonempty).not.2 missing)]
    exact ⟨rfl, .inr inserted⟩

theorem Collected.receive_last {first : Skb} {rest : List Skb} (h : Chain id 0 packet (first :: rest))
    (nonempty : packet ≠ []) (collected : Collected id (first :: rest) pre f) (mem : skb ∈ first :: rest)
    (new : skb ∉ pre) (all : ∀ p ∈ first :: rest, p ∈ pre ++ [skb]) :
    (f.receive skb).1 = some (clearFragment (first.data.take first.headersize) ++ packet) := by
  obtain ⟨holding, open_⟩ := collected.opened (h.fragId skb mem)
  obtain ⟨fragments, atEnd, position, inserted⟩ := holding.insert h mem new
  have chain : ((f.opened skb).insert skb fragments atEnd).fragments = first :: rest := by
    rw [inserted.fragments]
    exact filter_eq_self.2 (by simpa using all)
  rw [Fragment.receive, if_neg open_, position]
  dsimp only
  rw [if_pos ((inserted.complete_iff h nonempty).2 all)]
  dsimp only
  rw [reasm, chain]
  dsimp only
  rw [h.bodies]

theorem defrag_own (h : Chain id 0 packet chain) (queues : Queues) (mem : skb ∈ chain) :
    defrag queues skb = (((queues (id % fragmentQueue)).receive skb).1,
      Function.update queues (id % fragmentQueue) ((queues (id % fragmentQueue)).receive skb).2) := by
  have pos := h.pos skb mem
  have same : slot skb = id % fragmentQueue := by rw [slot, h.fragId skb mem]
  rw [defrag, if_neg (by unfold fragLength at pos; omega), same]

theorem defrag_foreign (queues : Queues) {i : ℕ} (other : slot skb ≠ i) : (defrag queues skb).2 i = queues i := by
  rw [defrag]
  split
  · rfl
  · exact Function.update_of_ne other.symm _ _

theorem delivered_append (queues : Queues) (skbs : List Skb) (skb : Skb) :
    delivered queues (skbs ++ [skb]) = (defrag (delivered queues skbs) skb).2 := by
  simp [delivered]

theorem collected_delivered (h : Chain id 0 packet chain) (nonempty : packet ≠ []) {queues : Queues}
    (free : (queues (id % fragmentQueue)).enable = false) {skbs : List Skb}
    (own : ∀ skb ∈ skbs, skb ∈ chain ∨ slot skb ≠ id % fragmentQueue) (missing : ¬ ∀ p ∈ chain, p ∈ skbs) :
    Collected id chain skbs (delivered queues skbs (id % fragmentQueue)) := by
  induction skbs using List.reverseRecOn with
  | nil => exact .inl ⟨free, by simp⟩
  | append_singleton skbs skb ih =>
    have before := ih (fun p mem => own p (by simp [mem]))
      fun all => missing fun p mem => by simp [all p mem]
    rw [delivered_append]
    by_cases mem : skb ∈ chain
    · rw [defrag_own h _ mem]
      dsimp only
      rw [Function.update_self]
      exact (before.receive_more h nonempty mem missing).2
    · have other := (own skb (by simp)).resolve_left mem
      rw [defrag_foreign _ other]
      -- a fragment of another packet is not in the chain
      have same : ∀ p ∈ chain, p ∈ skbs ↔ p ∈ skbs ++ [skb] := by
        intro p there
        have ne : p ≠ skb := by
          rintro rfl
          exact mem there
        simp [ne]
      rcases before with ⟨free, none⟩ | holding
      · exact .inl ⟨free, fun p there => (same p there).not.1 (none p there)⟩
      · exact .inr (holding.congr same)

theorem Chain.delivered {first : Skb} {rest : List Skb} (h : Chain id 0 packet (first :: rest))
    (nonempty : packet ≠ []) {queues : Queues} (free : (queues (id % fragmentQueue)).enable = false)
    {skbs : List Skb} {final : Skb} (own : ∀ skb ∈ skbs, skb ∈ first :: rest ∨ slot skb ≠ id % fragmentQueue)
    (mem : final ∈ first :: rest) (new : final ∉ skbs) (all : ∀ p ∈ first :: rest, p ∈ skbs ++ [final]) :
    (∀ pre skb post, skbs = pre ++ skb :: post → skb ∈ first :: rest → (defrag (delivered queues pre) skb).1 = none) ∧
    (defrag (delivered queues skbs) final).1 = some (clearFragment (first.data.take first.headersize) ++ packet) := by
  have missing : ∀ l : List Skb, final ∉ l → ¬ ∀ p ∈ first :: rest, p ∈ l := fun l absent all => absent (all final mem)
  constructor
  · rintro pre skb post rfl there
    have collected := collected_delivered h nonempty free (fun p here => own p (by simp [here]))
      (missing pre fun here => new (by simp [here]))
    rw [defrag_own h _ there]
    refine (collected.receive_more h nonempty there (missing _ fun here => new ?_)).1
    simp only [mem_append, mem_cons, not_mem_nil, or_false] at here ⊢
    tauto
  · have collected := collected_delivered h nonempty free own (missing skbs new)
    rw [defrag_own h _ mem]
    exact collected.receive_last h nonempty mem new all

end Collect

theorem Skb.data_injective : Function.Injective data := by
  rintro ⟨data, _, _⟩ ⟨data', _, _⟩ same
  obtain rfl : data = data' := same
  rfl

/-- A packet that fits is sent as it is.  Otherwise its fragments, in any order, repeatedly, and among others, give
nothing before the last missing one, and then the packet. -/
theorem forwarddata_roundTrip {out : Outgoing} (radioaddr : ∀ block ∈ out.radioaddr, 4 ∣ block.length)
    (winfo : ∀ block ∈ out.winfo, 4 ∣ block.length) (header : out.reserve ≤ 124)
    (room : out.reserve + 8 ≤ out.mtu) (mtu : out.mtu < 65536) {fragmentid : ℕ} (small : fragmentid < 65536)
    {send : ℕ → Bool} (sends : ∀ n, send n = true) {packet : List UInt8} (nonempty : packet ≠ [])
    (short : packet.length < 65536) :
    ∃ forwarded, out.forwarddata fragmentid send packet = some forwarded ∧ forwarded.ok = true ∧
      (packet.length + out.reserve ≤ out.mtu → ∃ header, forwarded.packets = [header ++ packet] ∧
        header.length = out.reserve ∧ isFlag .f (header ++ packet) = false) ∧
      (out.mtu < packet.length + out.reserve → ∃ first rest, forwarded.packets = first :: rest ∧
        ∀ (queues : Queues) (skbs : List Skb) (final : Skb), (queues (fragmentid % fragmentQueue)).enable = false →
          (∀ skb ∈ skbs, skb.data ∈ forwarded.packets ∨ slot skb ≠ fragmentid % fragmentQueue) →
          final.data ∈ forwarded.packets → final ∉ skbs →
          (∀ p ∈ forwarded.packets, ∃ skb ∈ skbs ++ [final], skb.data = p) →
          (∀ pre skb post, skbs = pre ++ skb :: post → skb.data ∈ forwarded.packets →
            (defrag (delivered queues pre) skb).1 = none) ∧
          (defrag (delivered queues skbs) final).1 = some (clearFragment (first.take out.reserve) ++ packet)) := by
  have aligned : 4 ∣ out.reserve := by
    have blocks : 4 ∣ (out.radioaddr.getD []).length ∧ 4 ∣ (out.winfo.getD []).length := by
      constructor
      · cases h : out.radioaddr with
        | none => simp
        | some block => exact radioaddr block h
      · cases h : out.winfo with
        | none => simp
        | some block => exact winfo block h
    simp only [reserve, options, length_append, headerSize]
    omega
  obtain ⟨forwarded, eq, ok, packets⟩ := forwarddata_eq room sends fragmentid packet
  refine ⟨forwarded, eq, ok, fun fits => ?_, fun long => ?_⟩
  · have whole : out.requestfragment packet = false := by simpa [requestfragment] using fits
    rw [packets, whole, if_neg (by simp)]
    exact pieces_unfragmented nonempty fits
  · have request : out.requestfragment packet = true := by simpa [requestfragment] using long
    rw [request, if_pos rfl] at packets
    obtain ⟨chain, map, size, h⟩ : ∃ chain : List Skb,
        chain.map data = out.pieces (some fragmentid) packet.length 0 packet ∧
          (∀ p ∈ chain.head?, p.headersize = out.size 0) ∧ Chain fragmentid 0 packet chain :=
      exists_chain ⟨aligned, header, room, mtu⟩ small le_rfl (by omega)
    rw [← map] at packets
    cases chain with
    | nil => exact absurd h.bodies.symm nonempty
    | cons first rest =>
      have size : first.headersize = out.reserve := size first rfl
      have member : ∀ skb : Skb, skb.data ∈ forwarded.packets ↔ skb ∈ first :: rest := by
        intro skb
        rw [packets, mem_map_of_injective data_injective]
      refine ⟨first.data, rest.map data, packets, fun queues skbs final free own mem new all => ?_⟩
      simp only [member] at own mem ⊢
      rw [← size]
      refine h.delivered nonempty free own mem new fun p there => ?_
      obtain ⟨skb, here, same⟩ := all p.data ((member p).2 there)
      rwa [← data_injective same]

def narrow : Outgoing where
  mtu := 24
  radioid := 1
  binding := 1
  tunnel8023 := false
  radioaddr := some [6, 0, 0, 0, 0, 1, 0, 0]
  winfo := none

theorem forwarddata_roundTrip_narrow : ∃ forwarded,
    narrow.forwarddata 5 (fun _ => true) (List.replicate 20 7) = some forwarded ∧ forwarded.ok = true ∧
      ∃ first rest, forwarded.packets = first :: rest ∧ ∀ (queues : Queues) (skbs : List Skb) (final : Skb),
          (queues (5 % fragmentQueue)).enable = false →
          (∀ skb ∈ skbs, skb.data ∈ forwarded.packets ∨ slot skb ≠ 5 % fragmentQueue) →
          final.data ∈ forwarded.packets → final ∉ skbs →
          (∀ p ∈ forwarded.packets, ∃ skb ∈ skbs ++ [final], skb.data = p) →
          (∀ pre skb post, skbs = pre ++ skb :: post → skb.data ∈ forwarded.packets →
            (defrag (delivered queues pre) skb).1 = none) ∧ (defrag (delivered queues skbs) final).1 =
            some (clearFragment (first.take narrow.reserve) ++ List.replicate 20 7) := by
  obtain ⟨forwarded, eq, ok, -, fragmented⟩ := @forwarddata_roundTrip narrow (by decide) (by decide)
    (by decide) (by decide) (by decide) 5 (by decide) (fun _ => true) (fun _ => rfl) (List.replicate 20 7)
    (by decide) (by decide)
  exact ⟨forwarded, eq, ok, fragmented (by decide)⟩

def wide : Outgoing where
  mtu := 136
  radioid := 1
  binding := 1
  tunnel8023 := false
  radioaddr := some (List.replicate 120 0)
  winfo := none

def wideFirst : Skb :=
  ⟨wide.header (some 1) 0 false ++ List.replicate 8 7, by decide +kernel, by decide +kernel⟩

def wideSecond : Skb := ⟨wide.header (some 1) 8 true ++ List.replicate 8 7, by decide, by decide⟩

/-- The length of a header of 128 bytes does not fit into five bits, and the receiver drops the fragments as
overlapping. -/
theorem long_header_is_lost : ∃ forwarded, wide.forwarddata 1 (fun _ => true) (List.replicate 16 7) = some forwarded ∧
    wide.reserve + 8 ≤ wide.mtu ∧ forwarded.packets = [wideFirst.data, wideSecond.data] ∧
    (defrag noFragments wideFirst).1 = none ∧ (defrag (delivered noFragments [wideFirst]) wideSecond).1 = none ∧
    (defrag noFragments wideSecond).1 = none ∧ (defrag (delivered noFragments [wideSecond]) wideFirst).1 = none :=
  ⟨⟨[wideFirst.data, wideSecond.data], true, 2⟩, by decide +kernel⟩

end OpenWifi.Kmod
