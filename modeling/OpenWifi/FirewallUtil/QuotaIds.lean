import OpenWifi.FirewallUtil.Iptables
import OpenWifi.Lib.Steps

/-!
# The ids of quotas

`restore_quotas` gives an id to every quota that has none: its first address, or that address with a postfix when the id
is in use.  The counter of the postfix is never increased.
-/

namespace OpenWifi.FirewallUtil

open List Option

/-- What `restore_quotas` reads of a section to find its id. -/
structure QuotaSection where
  enabled : Bool
  ip : Option Text
  id : Option Text
  deriving DecidableEq

/-- The first loop over the ranges: no blank is left before a `-`. -/
def joinBefore (ip : Text) : Text :=
  ip.foldr (fun c rest => if c = ' ' ∧ rest.head? = some '-' then rest else c :: rest) []

/-- The address option, `ALL` when it is missing or empty, without blanks around the `-` of a range. -/
def QuotaSection.addresses (q : QuotaSection) : Text :=
  let ip := match q.ip with
    | none | some [] => lit "ALL"
    | some ip => ip
  (joinBefore (joinBefore ip).reverse).reverse

def QuotaSection.firstIp (q : QuotaSection) : Option Text :=
  let idBreaks (c : Char) : Bool := c ∈ [',', ' ', '\t']
  let splitIp := splitPieces idBreaks false (q.addresses.countP idBreaks + 1) q.addresses
  splitIp.head?.map fun first => first.map fun c => if c = '/' then '_' else c

def QuotaSection.isOther (q : QuotaSection) : Bool :=
  q.addresses ∈ [lit "ALL_OTHERS_COMBINED", lit "ALL_OTHERS_INDIVIDUAL"]

variable (sections : List QuotaSection)

def handled : List QuotaSection :=
  let enabled := sections.filter (·.enabled)
  enabled.filter (fun q => !q.isOther) ++ enabled.filter (·.isOther)

/-- `next_postfix`; the difference of the unsigned numbers is printed as a signed one. -/
def nextPostfix (nextPostfixCount : ℕ) : Text :=
  if 25 < nextPostfixCount then ['_', Char.ofNat ('A'.toNat + nextPostfixCount)]
  else lit "_Z" ++ showInt ((nextPostfixCount : ℤ) - 25)

def quotaBaseIdLoop (defined : List Text) (firstIp : Text) (nextPostfixCount : ℕ) : ℕ → Text → Option Text
  | 0, _ => none
  | fuel + 1, quotaBaseId =>
    if quotaBaseId ∈ defined then
      quotaBaseIdLoop defined firstIp nextPostfixCount fuel (firstIp ++ nextPostfix nextPostfixCount)
    else some quotaBaseId

/-- The keys of `defined_base_ids`, and the ids that were generated. -/
structure Ids where
  defined : List Text
  generated : List Text

def assignId (fuel : ℕ) (s : Ids) (q : QuotaSection) : Option Ids :=
  match q.id with
  | some _ => some s
  | none => q.firstIp.bind fun firstIp =>
    (quotaBaseIdLoop s.defined firstIp 0 fuel firstIp).map fun quotaBaseId =>
      ⟨quotaBaseId :: s.defined, quotaBaseId :: s.generated⟩

def loadIds : Ids := ⟨sections.filterMap (·.id), []⟩

def HasCandidate (s : Ids) (q : QuotaSection) : Prop :=
  q.id = none → ∃ firstIp, q.firstIp = some firstIp ∧ (firstIp ∉ s.defined ∨ firstIp ++ nextPostfix 0 ∉ s.defined)

instance (s : Ids) (q : QuotaSection) : Decidable (HasCandidate s q) :=
  decidable_of_iff (q.id = none → q.firstIp.any fun firstIp =>
      firstIp ∉ s.defined ∨ firstIp ++ nextPostfix 0 ∉ s.defined)
    (imp_congr_right fun _ => by simp only [Option.any_eq_true, decide_eq_true_eq])

variable {s s' : Ids} {q : QuotaSection} {firstIp id : Text} {defined : List Text} {fuel : ℕ}

theorem quotaBaseIdLoop_postfix (h : quotaBaseIdLoop defined firstIp 0 fuel (firstIp ++ nextPostfix 0) = some id) :
    firstIp ++ nextPostfix 0 ∉ defined ∧ id = firstIp ++ nextPostfix 0 := by
  induction fuel with
  | zero => exact absurd h nofun
  | succ fuel ih =>
    unfold quotaBaseIdLoop at h
    split at h
    · exact ih h
    next free => exact ⟨free, (some.inj h).symm⟩

theorem quotaBaseIdLoop_some (h : quotaBaseIdLoop defined firstIp 0 fuel firstIp = some id) :
    (firstIp ∉ defined ∨ firstIp ++ nextPostfix 0 ∉ defined) ∧ id ∉ defined ∧
      quotaBaseIdLoop defined firstIp 0 2 firstIp = some id := by
  cases fuel with
  | zero => exact absurd h nofun
  | succ fuel =>
    unfold quotaBaseIdLoop at h
    split at h
    next used =>
      obtain ⟨free, rfl⟩ := quotaBaseIdLoop_postfix h
      exact ⟨.inr free, free, by simp [quotaBaseIdLoop, used, free]⟩
    next free =>
      cases h
      exact ⟨.inl free, free, by simp [quotaBaseIdLoop, free]⟩

theorem assignId_some (h : assignId fuel s q = some s') : HasCandidate s q ∧ assignId 2 s q = some s' ∧
      (s' = s ∨ ∃ id ∉ s.defined, s' = ⟨id :: s.defined, id :: s.generated⟩) := by
  unfold assignId at h
  split at h
  next configured =>
    cases h
    exact ⟨fun missing => absurd (configured.symm.trans missing) nofun, by simp [assignId, configured], .inl rfl⟩
  next missing =>
    obtain ⟨firstIp, first, h⟩ := bind_eq_some_iff.1 h
    obtain ⟨id, loop, rfl⟩ := map_eq_some_iff.1 h
    obtain ⟨candidate, free, two⟩ := quotaBaseIdLoop_some loop
    exact ⟨fun _ => ⟨firstIp, first, candidate⟩, by simp [assignId, missing, first, two], .inr ⟨id, free, rfl⟩⟩

theorem exists_assignId (h : HasCandidate s q) : ∃ s', assignId 2 s q = some s' := by
  cases hid : q.id with
  | some id => exact ⟨s, by simp [assignId, hid]⟩
  | none =>
    obtain ⟨firstIp, first, candidate⟩ := h hid
    by_cases used : firstIp ∈ s.defined
    · have free := candidate.resolve_left (not_not_intro used)
      exact ⟨_, by simp [assignId, hid, first, quotaBaseIdLoop, used, free]; rfl⟩
    · exact ⟨_, by simp [assignId, hid, first, quotaBaseIdLoop, used]; rfl⟩

structure Apart (configured : List Text) (s : Ids) : Prop where
  nodup : s.generated.Nodup
  new : ∀ id ∈ s.generated, id ∉ configured
  defined : ∀ id ∈ configured ++ s.generated, id ∈ s.defined

theorem apart_loadIds : Apart (loadIds sections).defined (loadIds sections) :=
  ⟨nodup_nil, fun _ mem => absurd mem not_mem_nil, fun id mem => by simpa [loadIds] using mem⟩

theorem Apart.assignId {configured : List Text} (apart : Apart configured s) (next : assignId fuel s q = some s') :
    Apart configured s' := by
  rcases (assignId_some next).2.2 with rfl | ⟨id, free, rfl⟩
  · exact apart
  · have notDefined : id ∉ configured ++ s.generated := fun mem => free (apart.defined id mem)
    rw [mem_append, not_or] at notDefined
    refine ⟨nodup_cons.2 ⟨notDefined.2, apart.nodup⟩, ?_, ?_⟩
    · intro x mem
      rcases mem_cons.1 mem with rfl | mem
      · exact notDefined.1
      · exact apart.new x mem
    · intro x mem
      simp only [mem_append, mem_cons] at mem ⊢
      rcases mem with mem | rfl | mem
      · exact .inr (apart.defined x (mem_append_left _ mem))
      · exact .inl rfl
      · exact .inr (apart.defined x (mem_append_right _ mem))

theorem along_of_run {sections : List QuotaSection} (run : runFrom (assignId fuel) s sections = some s') :
    Along (assignId 2) HasCandidate s sections := by
  induction sections generalizing s with
  | nil => trivial
  | cons q rest ih =>
    obtain ⟨t, first, run⟩ := runFrom_cons run
    obtain ⟨candidate, two, -⟩ := assignId_some first
    refine ⟨candidate, fun t' first' => ?_⟩
    obtain rfl := some.inj (two.symm.trans first')
    exact ih run

/-- The loops end with different ids exactly when at every section without an id the first address, alone or with
`_Z-25`, is not in use yet. -/
theorem assignIds_iff (sections : List QuotaSection) :
    (∃ fuel s, runFrom (assignId fuel) (loadIds sections) (handled sections) = some s ∧ s.generated.Nodup ∧
      ∀ id ∈ s.generated, id ∉ sections.filterMap (·.id)) ↔
    Along (assignId 2) HasCandidate (loadIds sections) (handled sections) := by
  constructor
  · rintro ⟨fuel, s, run, -⟩
    exact along_of_run run
  · intro along
    obtain ⟨s, run, -⟩ := along.simulation (R := fun _ (_ : Unit) => True) (f := fun a _ => a)
      (fun s _ q _ candidate => (exists_assignId candidate).imp fun _ next => ⟨next, trivial⟩) (a := ()) trivial
    have apart := runFrom_invariant (fun _ _ _ apart next => Apart.assignId apart next)
      (apart_loadIds sections) run
    exact ⟨2, s, run, apart.nodup, apart.new⟩

/-- With three quotas for one address the loop for the third id does not end. -/
theorem quotaBaseIdLoop_forever : let q : QuotaSection := ⟨true, some (lit "10.0.0.1"), none⟩
    handled [q, q, q] = [q, q, q] ∧ nextPostfix 0 = lit "_Z-25" ∧
      ∀ fuel, runFrom (assignId fuel) (loadIds [q, q, q]) [q, q, q] = none := by
  refine ⟨by decide +kernel, by decide +kernel, fun fuel => ?_⟩
  rw [eq_none_iff_forall_ne_some]
  intro s run
  exact absurd (along_of_run run) (by decide +kernel)

end OpenWifi.FirewallUtil
