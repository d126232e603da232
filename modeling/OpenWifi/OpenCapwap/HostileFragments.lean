import OpenWifi.OpenCapwap.Fragments

/-!
# Fragments of a hostile sender

What `CWProtocolParseFragment` does with fragments of one number whose offsets, lengths and last flags are arbitrary.
-/

namespace OpenWifi.OpenCapwap

open List Option

variable {fragments pieces : List Fragment} {size fuel offset fragmentID : ℕ} {stored : List UInt8} {f g : Fragment}
  {r : Reassembled}

/-- The loop has stored the pieces when it comes to the fragment `f`. -/
inductive Stored (fragments : List Fragment) : List Fragment → Fragment → Prop
  | first {f : Fragment} (mem : f ∈ fragments) (start : f.fragmentOffset = 0) : Stored fragments [] f
  | next {pieces : List Fragment} {f g : Fragment} (stored : Stored fragments pieces f) (more : f.last ≠ 1)
      (mem : g ∈ fragments) (behind : g.fragmentOffset = f.fragmentOffset + f.data.length / 8) :
      Stored fragments (pieces ++ [f]) g

/-- The message is what has been stored up to a last fragment, and this covers all bytes without overlap. -/
def Covers (fragments : List Fragment) (msg : List UInt8) : Prop :=
  (∃ pieces f, Stored fragments pieces f ∧ f.last = 1) ∧
    ∀ pieces f, Stored fragments pieces f → f.last = 1 → msg = (pieces ++ [f]).flatMap Fragment.data ∧
      Tiles (fun f : Fragment => f.fragmentOffset * 8) Fragment.data 0 (pieces ++ [f]) (totalSize fragments)

/-- A fragment that the loop does not leave, or a last fragment that is reached behind one whose length is not a
multiple of 8, or that is not the end of the message. -/
def Trap (fragments pieces : List Fragment) (f : Fragment) : Prop :=
  f.last ≠ 1 ∧ f.data.length < 8 ∨ f.last = 1 ∧
    ((∃ p ∈ pieces, ¬ 8 ∣ p.data.length) ∨ f.fragmentOffset * 8 + f.data.length ≠ totalSize fragments)

theorem Stored.mem (h : Stored fragments pieces f) : f ∈ fragments := by
  cases h with
  | first mem _ => exact mem
  | next _ _ mem _ => exact mem

theorem Stored.tiles_iff (h : Stored fragments pieces f) :
    Tiles (fun f : Fragment => f.fragmentOffset * 8) Fragment.data 0 pieces (f.fragmentOffset * 8) ↔
      ∀ p ∈ pieces, 8 ∣ p.data.length := by
  induction h with
  | first _ start => simp [Tiles, start]
  | next _ _ _ behind ih =>
    rw [tiles_concat, ih, forall_mem_append, forall_mem_singleton, pieceEnd, behind]
    refine and_congr_right fun _ => ?_
    omega

/-! ## Without a trap -/

def sizeFrom (fragments : List Fragment) (offset : ℕ) : ℕ :=
  currentSize (fragments.filter (offset ≤ ·.fragmentOffset))

theorem sum_filter_add_le {α : Type} (weight : α → ℕ) {p q : α → Bool} (imp : ∀ x, p x → q x) {l : List α} {a : α}
    (mem : a ∈ l) (weak : q a) (strong : ¬ p a) :
    weight a + ((l.filter p).map weight).sum ≤ ((l.filter q).map weight).sum := by
  have keeps : ∀ l : List α, ((l.filter p).map weight).sum ≤ ((l.filter q).map weight).sum :=
    fun l => ((monotone_filter_right l imp).map weight).sum_le_sum (by simp)
  obtain ⟨before, after, rfl⟩ := append_of_mem mem
  have front := keeps before
  have back := keeps after
  simp [strong, weak]
  omega

theorem filter_behind (behind : f.fragmentOffset < offset) :
    ∀ g : Fragment, decide (offset ≤ g.fragmentOffset) = true →
    decide (f.fragmentOffset ≤ g.fragmentOffset) = true := by
  intro g later
  simp only [decide_eq_true_eq] at later ⊢
  omega

theorem sizeFrom_behind (mem : f ∈ fragments) (behind : f.fragmentOffset < offset) :
    f.data.length + sizeFrom fragments offset ≤ sizeFrom fragments f.fragmentOffset :=
  sum_filter_add_le (·.data.length) (filter_behind behind) mem (by simp) (by simpa using behind)

theorem length_filter_behind (mem : f ∈ fragments) (behind : f.fragmentOffset < offset) :
    (fragments.filter (offset ≤ ·.fragmentOffset)).length <
      (fragments.filter (f.fragmentOffset ≤ ·.fragmentOffset)).length := by
  have counted := sum_filter_add_le (fun _ => 1) (filter_behind behind) mem (by simp) (by simpa using behind)
  simp only [map_const', sum_replicate_nat, Nat.mul_one] at counted
  omega

theorem reassembleLoop_safe (distinct : DistinctOffsets fragments)
    (clean : ∀ pieces f, Stored fragments pieces f → ¬ Trap fragments pieces f)
    (here : ∀ f ∈ fragments, f.fragmentOffset = offset → Stored fragments pieces f)
    (room : stored.length + sizeFrom fragments offset ≤ size) :
    ∃ r, Returns (fun fuel => reassembleLoop fragments size fuel offset stored) r ∧ r ≠ .overflow ∧
      ∀ msg, r = .message msg → ∃ pieces f, Stored fragments pieces f ∧ f.last = 1 := by
  induction left : (fragments.filter (offset ≤ ·.fragmentOffset)).length using Nat.strong_induction_on
    generalizing offset stored pieces with
  | _ left ih =>
  by_cases there : ∃ f ∈ fragments, f.fragmentOffset = offset
  · obtain ⟨f, mem, rfl⟩ := there
    have reached := here f mem rfl
    have fits : ¬ size < stored.length + f.data.length := by
      have := sizeFrom_behind mem (Nat.lt_succ_self f.fragmentOffset)
      omega
    by_cases last : f.last = 1
    · refine ⟨.message (stored ++ f.data), ?_, nofun, fun _ _ => ⟨pieces, f, reached, last⟩⟩
      refine Returns.step (.of_forall fun _ => rfl) fun fuel => ?_
      rw [reassembleLoop_at distinct mem, if_neg fits, if_pos last]
    · have long : 8 ≤ f.data.length := by
        by_contra short
        exact clean pieces f reached (.inl ⟨last, by omega⟩)
      have behind : f.fragmentOffset < f.fragmentOffset + f.data.length / 8 := by omega
      have rest := sizeFrom_behind mem behind
      have next : ∀ g ∈ fragments, g.fragmentOffset = f.fragmentOffset + f.data.length / 8 →
          Stored fragments (pieces ++ [f]) g :=
        fun g memG same => .next reached last memG same
      have room : (stored ++ f.data).length + sizeFrom fragments (f.fragmentOffset + f.data.length / 8) ≤ size := by
        rw [length_append]
        omega
      obtain ⟨r, returns, safe⟩ := ih _ (left ▸ length_filter_behind mem behind) next room rfl
      refine ⟨r, returns.step fun fuel => ?_, safe⟩
      rw [reassembleLoop_at distinct mem, if_neg fits, if_neg last]
  · refine ⟨.badFragmentedMessage, .step (.of_forall fun _ => rfl) fun fuel => ?_, nofun, nofun⟩
    have none : fragments.find? (·.fragmentOffset = offset) = none := by
      simpa [find?_eq_none] using there
    rw [reassembleLoop, none]

section

variable (distinct : DistinctOffsets fragments) (reached : Stored fragments pieces f)
  (returns : Returns (fun fuel => reassembleLoop fragments size fuel 0 []) r) (safe : r ≠ .overflow)
include distinct reached returns safe

theorem Stored.continues :
    Returns (fun fuel => reassembleLoop fragments size fuel f.fragmentOffset (pieces.flatMap Fragment.data)) r := by
  induction reached with
  | first mem start => exact start ▸ returns
  | @next pieces f g reached more mem behind ih =>
    obtain ⟨n, ends⟩ := ih
    refine ⟨n, fun m le => ?_⟩
    have turn := ends (m + 1) (by omega)
    dsimp only at turn ⊢
    rw [reassembleLoop_at distinct reached.mem, if_neg more] at turn
    split_ifs at turn
    · exact absurd (some.inj turn).symm safe
    · simpa [behind] using turn

theorem Stored.message (last : f.last = 1) : r = .message ((pieces ++ [f]).flatMap Fragment.data) := by
  obtain ⟨n, ends⟩ := reached.continues distinct returns safe
  have turn := ends (n + 1) (by omega)
  dsimp only at turn
  rw [reassembleLoop_at distinct reached.mem, if_pos last] at turn
  split_ifs at turn
  · exact absurd (some.inj turn).symm safe
  · simpa using (some.inj turn).symm

end

theorem reassembleLoop_stays (distinct : DistinctOffsets fragments) (mem : f ∈ fragments) (more : f.last ≠ 1)
    (short : f.data.length < 8)
    (ends : reassembleLoop fragments size fuel f.fragmentOffset stored = some r) : r = .overflow := by
  induction fuel generalizing stored with
  | zero => exact absurd ends nofun
  | succ fuel ih =>
    rw [reassembleLoop_at distinct mem, if_neg more, Nat.div_eq_of_lt short, Nat.add_zero] at ends
    split_ifs at ends
    · exact (some.inj ends).symm
    · exact ih ends

theorem not_trap_of_safe (distinct : DistinctOffsets fragments) (reached : Stored fragments pieces f)
    (returns : Returns (fun fuel => reassembleLoop fragments size fuel 0 []) r) (safe : r ≠ .overflow)
    (covered : ∀ msg, r = .message msg → Covers fragments msg) : ¬ Trap fragments pieces f := by
  rintro (⟨more, short⟩ | ⟨last, wrong⟩)
  · obtain ⟨n, ends⟩ := reached.continues distinct returns safe
    exact safe (reassembleLoop_stays distinct reached.mem more short (ends n le_rfl))
  · have tiles := ((covered _ (reached.message distinct returns safe last)).2 pieces f reached last).2
    rw [tiles_concat, reached.tiles_iff] at tiles
    rcases wrong with ⟨p, mem, odd⟩ | early
    · exact odd (tiles.1 p mem)
    · exact early tiles.2

theorem covers_of_clean (distinct : DistinctOffsets fragments)
    (clean : ∀ pieces f, Stored fragments pieces f → ¬ Trap fragments pieces f)
    (returns : Returns (fun fuel => reassembleLoop fragments size fuel 0 []) r) (safe : r ≠ .overflow)
    (ends : ∃ pieces f, Stored fragments pieces f ∧ f.last = 1) {msg : List UInt8} (message : r = .message msg) :
    Covers fragments msg := by
  refine ⟨ends, fun pieces f reached last => ⟨?_, ?_⟩⟩
  · exact Reassembled.message.inj (message.symm.trans (reached.message distinct returns safe last))
  · have proper := clean pieces f reached
    rw [tiles_concat, reached.tiles_iff]
    constructor
    · intro p mem
      by_contra odd
      exact proper (.inr ⟨last, .inl ⟨p, mem, odd⟩⟩)
    · by_contra early
      exact proper (.inr ⟨last, .inr early⟩)

/-! ## Calls -/

def IsFragment (dataFlag copies : Bool) (fragmentID : ℕ) (packet : List UInt8) : Prop :=
  ∃ parsed rest, parseTransportHeader dataFlag copies packet = .ok (parsed, rest) ∧ parsed.values.isFragment ≠ 0 ∧
    parsed.values.fragmentID = fragmentID

def Calls (dataFlag copies : Bool) (fragments : List Fragment) (packet : List UInt8)
    (r : Except CWError (List UInt8) × List Fragment) : Prop :=
  Returns (protocolParseFragment dataFlag copies packet fragments) r

def joined (dataFlag copies : Bool) (fragments : List Fragment) (packet : List UInt8) : Option (List Fragment) :=
  match parseTransportHeader dataFlag copies packet with
  | .error _ => none
  | .ok (parsed, rest) =>
    collect fragments ⟨parsed.values.fragmentID, parsed.values.fragmentOffset, parsed.values.last, rest⟩

/-- The call ends, does not write behind the end of the message, and returns a message only when the stored fragments
cover it. -/
def SafeCall (dataFlag copies : Bool) (fragments : List Fragment) (packet : List UInt8) : Prop :=
  ∃ r, Calls dataFlag copies fragments packet r ∧ r.1 ≠ .error .outside ∧
    ∀ msg, r.1 = .ok msg → ∃ all ∈ joined dataFlag copies fragments packet, Covers all msg

def CleanCall (dataFlag copies : Bool) (fragments : List Fragment) (packet : List UInt8) : Prop :=
  ∀ all ∈ joined dataFlag copies fragments packet, Complete all → ∀ pieces f, Stored all pieces f → ¬ Trap all pieces f

variable {dataFlag copies : Bool} {packet : List UInt8}

section

variable (one : OneMessage fragmentID fragments) (own : IsFragment dataFlag copies fragmentID packet)
include one own

theorem call_cases : (joined dataFlag copies fragments packet = none ∧
      ∀ fuel, protocolParseFragment dataFlag copies packet fragments fuel = some (.error .needResource, fragments)) ∨
    ∃ all, joined dataFlag copies fragments packet = some all ∧ OneMessage fragmentID all ∧
      protocolParseFragment dataFlag copies packet fragments = fun fuel =>
        if Complete all then (reassembleLoop all (totalSize all) fuel 0 []).map (finish all)
        else some (.error .needResource, all) := by
  obtain ⟨parsed, rest, read, fragment, number⟩ := own
  have joined_eq : joined dataFlag copies fragments packet = collect fragments
      ⟨parsed.values.fragmentID, parsed.values.fragmentOffset, parsed.values.last, rest⟩ := by
    rw [joined, read]
  have call_eq (fuel : ℕ) : protocolParseFragment dataFlag copies packet fragments fuel = parseNewFragment fragments
      ⟨parsed.values.fragmentID, parsed.values.fragmentOffset, parsed.values.last, rest⟩ fuel := by
    rw [protocolParseFragment, read]
    exact if_neg fragment
  generalize new : (⟨parsed.values.fragmentID, parsed.values.fragmentOffset, parsed.values.last, rest⟩ : Fragment) = f
    at joined_eq call_eq
  have own : f.fragmentID = fragmentID := by rw [← new, number]
  rcases one.collect_cases own with ⟨copy, -⟩ | ⟨added, fresh⟩
  · refine .inl ⟨joined_eq.trans copy, fun fuel => ?_⟩
    rw [call_eq, parseNewFragment, copy]
  · refine .inr ⟨f :: fragments, joined_eq.trans added, one.cons own fresh, funext fun fuel => ?_⟩
    rw [call_eq, parseNewFragment, added]

theorem safeCall_iff : SafeCall dataFlag copies fragments packet ↔ CleanCall dataFlag copies fragments packet := by
  rcases call_cases one own with ⟨copy, result⟩ | ⟨all, added, oneAll, result⟩
  · refine iff_of_true ⟨_, .of_forall result, nofun, nofun⟩ ?_
    intro all mem
    rw [copy] at mem
    exact absurd mem nofun
  · simp only [SafeCall, CleanCall, Calls, added, mem_some_iff, forall_eq', exists_eq_left', result]
    by_cases complete : Complete all
    · simp only [complete, true_implies]
      constructor
      · rintro ⟨r, returns, inside, covered⟩ pieces f reached
        obtain ⟨r', returns', rfl⟩ := returns.of_map finish_injective
        refine not_trap_of_safe oneAll.distinct reached returns' ?_ ?_
        · rintro rfl
          exact inside rfl
        · rintro msg rfl
          exact covered msg rfl
      · intro clean
        have room : ([] : List UInt8).length + sizeFrom all 0 ≤ totalSize all := by
          simp [sizeFrom, complete.2]
        obtain ⟨r, returns, inside, ends⟩ := reassembleLoop_safe oneAll.distinct clean
          (fun f mem start => .first mem start) room
        have covered : ∀ msg, r = .message msg → Covers all msg := fun msg message =>
          covers_of_clean oneAll.distinct clean returns inside (ends msg message) message
        refine ⟨finish all r, returns.map (finish all), ?_, ?_⟩
        · cases r with
          | message msg => exact nofun
          | badFragmentedMessage => exact nofun
          | overflow => exact absurd rfl inside
        · cases r with
          | message msg =>
            intro msg' same
            obtain rfl : msg = msg' := Except.ok.inj same
            exact covered msg rfl
          | badFragmentedMessage => exact nofun
          | overflow => exact nofun
    · simp only [complete, false_implies]
      exact iff_of_true ⟨_, .of_forall fun _ => rfl, nofun, nofun⟩ trivial

theorem calls_of_joined (all : List Fragment) (added : joined dataFlag copies fragments packet = some all)
    (short : ¬ Complete all) : Calls dataFlag copies fragments packet (.error .needResource, all) := by
  rcases call_cases one own with ⟨copy, -⟩ | ⟨all, added', -, result⟩
  · cases copy.symm.trans added
  · cases added.symm.trans added'
    rw [Calls, result]
    exact .of_forall fun _ => if_neg short

end

def EveryCall (dataFlag copies : Bool) (C : List Fragment → List UInt8 → Prop) :
    List Fragment → List (List UInt8) → Prop
  | _, [] => True
  | fragments, packet :: packets => C fragments packet ∧
    ∀ r, Calls dataFlag copies fragments packet r → EveryCall dataFlag copies C r.2 packets

variable {r : Except CWError (List UInt8) × List Fragment}

theorem OneMessage.call (one : OneMessage fragmentID fragments) (own : IsFragment dataFlag copies fragmentID packet)
    (calls : Calls dataFlag copies fragments packet r) : OneMessage fragmentID r.2 := by
  unfold Calls at calls
  rcases call_cases one own with ⟨-, result⟩ | ⟨all, -, oneAll, result⟩
  · rw [calls.unique (.of_forall result)]
    exact one
  · rw [result] at calls
    by_cases complete : Complete all
    · simp only [if_pos complete] at calls
      obtain ⟨r', -, rfl⟩ := calls.of_map finish_injective
      cases r' with
      | message msg | badFragmentedMessage => exact oneMessage_nil fragmentID
      | overflow => exact oneAll
    · simp only [if_neg complete] at calls
      rw [calls.unique (.of_forall fun _ => rfl)]
      exact oneAll

theorem everyCall_safe_iff {packets : List (List UInt8)} (one : OneMessage fragmentID fragments)
    (own : ∀ packet ∈ packets, IsFragment dataFlag copies fragmentID packet) :
    EveryCall dataFlag copies (SafeCall dataFlag copies) fragments packets ↔
      EveryCall dataFlag copies (CleanCall dataFlag copies) fragments packets := by
  induction packets generalizing fragments with
  | nil => exact Iff.rfl
  | cons packet packets ih =>
    have own_packet := own packet (by simp)
    refine and_congr (safeCall_iff one own_packet) (forall₂_congr fun r calls => ?_)
    exact ih (one.call own_packet calls) fun p mem => own p (by simp [mem])

/-- The calls for fragments of one number are all safe exactly when they are all clean. -/
theorem hostile_safe_iff (dataFlag copies : Bool) (fragmentID : ℕ) (packets : List (List UInt8))
    (own : ∀ packet ∈ packets, IsFragment dataFlag copies fragmentID packet) :
    EveryCall dataFlag copies (SafeCall dataFlag copies) [] packets ↔
      EveryCall dataFlag copies (CleanCall dataFlag copies) [] packets :=
  everyCall_safe_iff (oneMessage_nil fragmentID) own

/-! ## Two senders -/

def fragmentPacket (offset last : ℕ) (data : List UInt8) : List UInt8 :=
  assembleTransportHeader noRadioMac
    { payloadType := 0, type := 0, isFragment := 1, last := last, fragmentID := 7, fragmentOffset := offset
      keepAlive := 0, bindingValues := none } ++ data

theorem isFragment_of_map {packet : List UInt8}
    (read : (parseTransportHeader dataFlag copies packet).map
      (fun r => (r.1.values.isFragment, r.1.values.fragmentID)) =
      .ok (1, fragmentID)) : IsFragment dataFlag copies fragmentID packet := by
  rcases parsed : parseTransportHeader dataFlag copies packet with e | ⟨header, rest⟩
  · rw [parsed] at read
    exact absurd read nofun
  · rw [parsed] at read
    obtain ⟨fragment, number⟩ := Prod.mk.inj (Except.ok.inj read)
    exact ⟨header, rest, parsed, by rw [fragment]; decide, number⟩

def properPackets : List (List UInt8) := [fragmentPacket 1 1 (.replicate 8 2), fragmentPacket 0 0 (.replicate 8 1)]

theorem hostile_safe_iff_proper : (∀ packet ∈ properPackets, IsFragment false true 7 packet) ∧
      (EveryCall false true (SafeCall false true) [] properPackets ↔
        EveryCall false true (CleanCall false true) [] properPackets) := by
  have own : ∀ packet ∈ properPackets, IsFragment false true 7 packet := by
    simp only [properPackets, forall_mem_cons, not_mem_nil, false_implies, implies_true, and_true]
    exact ⟨isFragment_of_map (by decide +kernel), isFragment_of_map (by decide +kernel)⟩
  exact ⟨own, hostile_safe_iff false true 7 properPackets own⟩

def stuckPackets : List (List UInt8) :=
  [fragmentPacket 0 0 (.replicate 4 1), fragmentPacket 2 0 (.replicate 4 2), fragmentPacket 1 1 (.replicate 8 3)]

/-- The third call stores the first fragment over and over, until it is behind the end of the message. -/
theorem stuck_unsafe : (∀ packet ∈ stuckPackets, IsFragment false true 7 packet) ∧
    ¬ EveryCall false true (SafeCall false true) [] stuckPackets := by
  have own : ∀ packet ∈ stuckPackets, IsFragment false true 7 packet := by
    simp only [stuckPackets, forall_mem_cons, not_mem_nil, false_implies, implies_true, and_true]
    exact ⟨isFragment_of_map (by decide +kernel), isFragment_of_map (by decide +kernel),
      isFragment_of_map (by decide +kernel)⟩
  refine ⟨own, ?_⟩
  have ⟨own₁, own₂, _⟩ := forall_mem_cons.1 own |>.imp_right forall_mem_cons.1
  have one := oneMessage_nil 7
  rw [everyCall_safe_iff one own]
  rintro ⟨-, second⟩
  have first := calls_of_joined one own₁ [⟨7, 0, 0, .replicate 4 1⟩]
    (by decide +kernel) (by decide +kernel)
  have one := one.call own₁ first
  obtain ⟨-, third⟩ := second _ first
  have next := calls_of_joined one own₂ [⟨7, 2, 0, .replicate 4 2⟩, ⟨7, 0, 0, .replicate 4 1⟩]
    (by decide +kernel) (by decide +kernel)
  obtain ⟨clean, -⟩ := third _ next
  exact clean [⟨7, 1, 1, .replicate 8 3⟩, ⟨7, 2, 0, .replicate 4 2⟩, ⟨7, 0, 0, .replicate 4 1⟩] (by decide +kernel)
    (by decide +kernel) [] ⟨7, 0, 0, .replicate 4 1⟩ (.first (by simp) rfl) (.inl ⟨by decide, by decide⟩)

end OpenWifi.OpenCapwap
