import Mathlib.Data.List.TakeWhile
import OpenWifi.OpenCapwap.StationTree

/-!
# The stations of a WTP

A station of a BSS is looked up with `CWCompareEthernetAddress`, for which a zero byte agrees with every byte, and it is
deleted with `strcmp`, which reads no further than the first zero byte.
-/

namespace OpenWifi.OpenCapwap

open List Option

/-- `CW80211StateSTA`. -/
inductive StaState where
  | off
  | probe
  | auth
  | association
  | data
  deriving DecidableEq

/-- `WTPSTAInfo`; the address is `none` for `NULL`, otherwise the bytes before the zero byte at the end of the buffer.
-/
structure StaInfo where
  address : Option Address
  state : StaState
  deriving DecidableEq

/-- The loop of `CWCompareEthernetAddress`. -/
def compareNonzero : List UInt8 → List UInt8 → ℤ
  | x :: xs, y :: ys => if x ≠ 0 ∧ y ≠ 0 ∧ x ≠ y then -1 else compareNonzero xs ys
  | _, _ => 0

/-- `CWCompareEthernetAddress`. -/
def compareEthernetAddress (address1 address2 : Option Address) : ℤ :=
  match address1, address2 with
  | some a, some b => compareNonzero a.toList b.toList
  | _, _ => -1

/-- `strcmp`, on bytes that hold a zero byte. -/
def strcmp : List UInt8 → List UInt8 → ℤ
  | x :: xs, y :: ys => if x ≠ y then x.toNat - y.toNat else if x = 0 then 0 else strcmp xs ys
  | _, _ => 0

/-- `findSTABySA`: the index of the entry. -/
def findSTABySA (staList : List StaInfo) (sa : Option Address) : Option ℕ :=
  if sa = none then none
  else staList.findIdx? fun sta => sta.address ≠ none ∧ compareEthernetAddress sta.address sa = 0

/-- `addSTABySA`: the index and the table.  The address of a reused entry is lost also when there is no memory. -/
def addSTABySA (memory : Bool) (staList : List StaInfo) (sa : Option Address) : Option ℕ × List StaInfo :=
  if sa = none then (none, staList)
  else
    match findSTABySA staList sa with
    | some i => (some i, staList.modify i fun sta => { sta with state := .off })
    | none =>
      match staList.findIdx? fun sta => sta.address = none ∨ sta.state = .off with
      | some i =>
        if memory then (some i, staList.modify i fun sta => { sta with address := sa })
        else (none, staList.modify i fun sta => { sta with address := none })
      | none => (none, staList)

/-- `delSTABySA`; `behind` is the byte in memory behind the six bytes of the argument. -/
def delSTABySA (staList : List StaInfo) (sa : Option Address) (behind : UInt8) : Bool × List StaInfo :=
  match sa with
  | none => (false, staList)
  | some a =>
    match staList.findIdx? fun sta =>
        sta.address.any fun x => strcmp (x.toList ++ [0]) (a.toList ++ [behind]) = 0 with
    | some i => (true, staList.set i ⟨none, .off⟩)
    | none => (false, staList)

def StaInfo.Has (sta : StaInfo) (a : Address) : Prop := sta.address = some a
  deriving Decidable

def LookupRight (staList : List StaInfo) (a : Address) : Prop :=
  ∀ i sta, findSTABySA staList (some a) = some i → staList[i]? = some sta → sta.Has a

def DeletionRight (staList : List StaInfo) (a : Address) (behind : UInt8) : Prop :=
  (delSTABySA staList (some a) behind).2 = staList.map fun sta => if sta.Has a then ⟨none, .off⟩ else sta

def AdditionRight (memory : Bool) (staList : List StaInfo) (a : Address) : Prop :=
  (∀ sta ∈ staList, ¬ sta.Has a) → ∀ i sta, staList[i]? = some sta → sta.address ≠ none → sta.state ≠ .off →
    (addSTABySA memory staList (some a)).1 ≠ some i ∧ (addSTABySA memory staList (some a)).2[i]? = some sta

def Similar (x a : Address) : Prop := ∀ i, x.get i ≠ 0 → a.get i ≠ 0 → x.get i = a.get i

def SameText (x a : Address) : Prop := x.toList.takeWhile (· ≠ 0) = a.toList.takeWhile (· ≠ 0)

def HasBefore (staList : List StaInfo) (a : Address) (i : ℕ) : Prop :=
  ∃ j < i, ∃ sta, staList[j]? = some sta ∧ sta.Has a

/-- Entries that are taken for entries of the address are such entries or stand behind one, the address is stored at
most once, and it ends with a zero byte. -/
structure Distinguished (staList : List StaInfo) (a : Address) (behind : UInt8) : Prop where
  similar : ∀ i sta x, staList[i]? = some sta → sta.Has x → Similar x a → x = a ∨ HasBefore staList a i
  sameText : ∀ i sta x, staList[i]? = some sta → sta.Has x → SameText x a → x = a ∨ HasBefore staList a i
  once : ∀ (i j : ℕ) (sta other : StaInfo), staList[i]? = some sta → staList[j]? = some other →
    sta.Has a → other.Has a → i = j
  closed : (∃ sta ∈ staList, sta.Has a) → 0 ∉ a.toList → behind = 0

theorem compareNonzero_eq_zero {xs ys : List UInt8} (same : xs.length = ys.length) :
    compareNonzero xs ys = 0 ↔ List.Forall₂ (fun x y => x ≠ 0 → y ≠ 0 → x = y) xs ys := by
  induction xs generalizing ys with
  | nil =>
    obtain rfl : ys = [] := length_eq_zero_iff.1 same.symm
    simp [compareNonzero]
  | cons x xs ih =>
    obtain ⟨y, ys, rfl⟩ := exists_cons_of_length_eq_add_one same.symm
    have rest := ih (Nat.succ.inj same)
    rw [compareNonzero, forall₂_cons]
    split
    case isTrue differ => simp [differ]
    case isFalse agree =>
      rw [rest, iff_and_self]
      intro _ hx hy
      by_contra other
      exact agree ⟨hx, hy, other⟩

theorem compareEthernetAddress_eq_zero {x a : Address} :
    compareEthernetAddress (some x) (some a) = 0 ↔ Similar x a := by
  rw [compareEthernetAddress, compareNonzero_eq_zero (by simp), forall₂_iff_get]
  constructor
  · rintro ⟨-, agree⟩ i
    simpa [List.Vector.get_eq_get_toList] using agree i (by simp) (by simp)
  · intro agree
    refine ⟨by simp, fun i hx ha => ?_⟩
    simpa [List.Vector.get_eq_get_toList] using agree ⟨i, by simpa using hx⟩

theorem strcmp_eq_zero {xs ys : List UInt8} {behind : UInt8} (same : xs.length = ys.length) :
    strcmp (xs ++ [0]) (ys ++ [behind]) = 0 ↔ xs.takeWhile (· ≠ 0) = ys.takeWhile (· ≠ 0) ∧ (0 ∉ ys → behind = 0) := by
  induction xs generalizing ys with
  | nil =>
    obtain rfl : ys = [] := length_eq_zero_iff.1 same.symm
    by_cases zero : behind = 0
    · simp [strcmp, zero]
    · have value : behind.toNat ≠ 0 := fun h => zero (UInt8.toNat.inj h)
      simp [strcmp, zero, Ne.symm zero, value]
  | cons x xs ih =>
    obtain ⟨y, ys, rfl⟩ := exists_cons_of_length_eq_add_one same.symm
    have rest := ih (Nat.succ.inj same)
    rw [cons_append, cons_append, strcmp]
    by_cases differ : x = y
    · subst differ
      by_cases zero : x = 0
      · simp [zero]
      · simp [zero, Ne.symm zero, rest]
    · have values : (x.toNat : ℤ) - y.toNat ≠ 0 := by
        have : x.toNat ≠ y.toNat := fun h => differ (UInt8.toNat.inj h)
        omega
      have apart : (x :: xs).takeWhile (· ≠ 0) ≠ (y :: ys).takeWhile (· ≠ 0) := by
        by_cases hx : x = 0 <;> by_cases hy : y = 0 <;> simp_all
      rw [if_pos differ]
      exact iff_of_false values fun h => apart h.1

theorem SameText.eq {x a : Address} (h : SameText x a) (nonzero : 0 ∉ a.toList) : x = a := by
  have whole : a.toList.takeWhile (· ≠ 0) = a.toList :=
    takeWhile_eq_self_iff.2 fun b mem => decide_eq_true (ne_of_mem_of_not_mem mem nonzero)
  have front : a.toList <+: x.toList := by
    rw [← whole, ← h]
    exact takeWhile_prefix _
  exact (List.Vector.toList_injective (front.eq_of_length (by simp))).symm

section FirstMatch

variable {α : Type} {p : α → Bool} {Q : α → Prop} {entries : List α}

theorem findIdx?_right_iff (matches_ : ∀ e ∈ entries, Q e → p e) :
    (∀ i e, entries.findIdx? p = some i → entries[i]? = some e → Q e) ↔
      ∀ (i : ℕ) e, entries[i]? = some e → p e → Q e ∨ ∃ j < i, ∃ e, entries[j]? = some e ∧ Q e := by
  constructor
  · intro right i e get hp
    obtain ⟨k, found⟩ := isSome_iff_exists.1
      (findIdx?_isSome.trans (any_eq_true.2 ⟨e, mem_of_getElem? get, hp⟩))
    obtain ⟨inside, -, first⟩ := findIdx?_eq_some_iff_getElem.1 found
    have hk := right k _ found (getElem?_eq_getElem inside)
    rcases Nat.lt_trichotomy k i with before | rfl | behind
    · exact .inr ⟨k, before, _, getElem?_eq_getElem inside, hk⟩
    · rw [getElem?_eq_getElem inside, some.injEq] at get
      exact .inl (get ▸ hk)
    · obtain ⟨inside', rfl⟩ := List.getElem?_eq_some_iff.1 get
      exact absurd hp (first i behind)
  · intro behind i e found get
    obtain ⟨inside, hp, first⟩ := findIdx?_eq_some_iff_getElem.1 found
    rw [getElem?_eq_getElem inside, some.injEq] at get
    rcases behind i e (get ▸ getElem?_eq_getElem inside) (get ▸ hp) with he | ⟨j, before, e', get', he'⟩
    · exact he
    · obtain ⟨inside', rfl⟩ := List.getElem?_eq_some_iff.1 get'
      exact absurd (matches_ _ (getElem_mem inside') he') (first j before)

end FirstMatch

theorem findSTABySA_some (staList : List StaInfo) (a : Address) : findSTABySA staList (some a) =
      staList.findIdx? fun sta => sta.address ≠ none ∧ compareEthernetAddress sta.address (some a) = 0 := by
  rw [findSTABySA, if_neg (by simp)]

variable {a : Address}

theorem lookup_match_iff {sta : StaInfo} :
    decide (sta.address ≠ none ∧ compareEthernetAddress sta.address (some a) = 0) = true ↔
      ∃ x, sta.Has x ∧ Similar x a := by
  rw [decide_eq_true_eq]
  cases h : sta.address with
  | none => simp [StaInfo.Has, h]
  | some x => simp [StaInfo.Has, h, compareEthernetAddress_eq_zero]

theorem similar_refl (a : Address) : Similar a a := fun _ _ _ => rfl

variable {staList : List StaInfo}

theorem lookupRight_iff : LookupRight staList a ↔
      ∀ i sta x, staList[i]? = some sta → sta.Has x → Similar x a → x = a ∨ HasBefore staList a i := by
  rw [LookupRight, findSTABySA_some,
    findIdx?_right_iff (Q := (StaInfo.Has · a)) fun sta _ has => lookup_match_iff.2 ⟨a, has, similar_refl a⟩]
  simp only [lookup_match_iff]
  constructor
  · intro right i sta x get has similar
    refine (right i sta get ⟨x, has, similar⟩).imp_left fun has' => ?_
    exact some.inj (has.symm.trans has')
  · rintro right i sta get ⟨x, has, similar⟩
    refine (right i sta x get has similar).imp_left ?_
    rintro rfl
    exact has

theorem deletion_match_iff {sta : StaInfo} {behind : UInt8} :
    (sta.address.any fun x => strcmp (x.toList ++ [0]) (a.toList ++ [behind]) = 0) = true ↔
      ∃ x, sta.Has x ∧ SameText x a ∧ (0 ∉ a.toList → behind = 0) := by
  cases h : sta.address with
  | none => simp [StaInfo.Has, h]
  | some x =>
    have compared : strcmp (x.toList ++ [0]) (a.toList ++ [behind]) = 0 ↔
        SameText x a ∧ (0 ∉ a.toList → behind = 0) := strcmp_eq_zero (by simp)
    rw [any_some, decide_eq_true_eq, compared]
    constructor
    · exact fun same => ⟨x, h, same⟩
    · rintro ⟨y, has, same⟩
      exact some.inj (h.symm.trans has) ▸ same

theorem set_eq_map_iff {i : ℕ} {sta : StaInfo} (get : staList[i]? = some sta) (used : sta.address ≠ none) :
    (staList.set i ⟨none, .off⟩ = staList.map fun sta => if sta.Has a then ⟨none, .off⟩ else sta) ↔
      sta.Has a ∧ ∀ (j : ℕ) other, staList[j]? = some other → other.Has a → i = j := by
  obtain ⟨inside, -⟩ := List.getElem?_eq_some_iff.1 get
  constructor
  · intro same
    have at_index : ∀ j : ℕ, (staList.set i ⟨none, .off⟩)[j]? =
        (staList.map fun sta => if sta.Has a then (⟨none, .off⟩ : StaInfo) else sta)[j]? := fun j => by rw [same]
    constructor
    · by_contra other
      have here := at_index i
      rw [getElem?_set_self inside, getElem?_map, get, map_some, if_neg other, some.injEq] at here
      exact used (here ▸ rfl)
    · intro j other get' has
      by_contra ne
      have there := at_index j
      rw [getElem?_set_ne ne, getElem?_map, get', map_some, if_pos has, some.injEq] at there
      rw [StaInfo.Has, there] at has
      cases has
  · rintro ⟨has, only⟩
    apply ext_getElem?
    intro j
    rw [getElem?_map]
    by_cases here : i = j
    · subst here
      rw [getElem?_set_self inside, get, map_some, if_pos has]
    · rw [getElem?_set_ne here]
      cases get' : staList[j]? with
      | none => rfl
      | some other => rw [map_some, if_neg fun has' => here (only j other get' has')]

theorem eq_map_iff :
    (staList = staList.map fun sta => if sta.Has a then ⟨none, .off⟩ else sta) ↔ ∀ sta ∈ staList, ¬ sta.Has a := by
  constructor
  · intro same sta mem has
    rw [same] at mem
    obtain ⟨other, -, rfl⟩ := mem_map.1 mem
    split at has
    case isTrue => cases has
    case isFalse no => exact no has
  · intro absent
    conv_lhs => rw [← map_id staList]
    exact map_congr_left fun sta mem => (if_neg (absent sta mem)).symm

theorem deletionRight_iff {behind : UInt8} : DeletionRight staList a behind ↔
      (∀ i sta x, staList[i]? = some sta → sta.Has x → SameText x a → x = a ∨ HasBefore staList a i) ∧
      (∀ (i j : ℕ) (sta other : StaInfo), staList[i]? = some sta → staList[j]? = some other →
        sta.Has a → other.Has a → i = j) ∧ ((∃ sta ∈ staList, sta.Has a) → 0 ∉ a.toList → behind = 0) := by
  rw [DeletionRight, delSTABySA]
  split
  case h_1 i found =>
    obtain ⟨inside, hp, first⟩ := findIdx?_eq_some_iff_getElem.1 found
    obtain ⟨x, has, text, closed⟩ := deletion_match_iff.1 hp
    have get := getElem?_eq_getElem inside
    rw [set_eq_map_iff get (by rw [has]; simp)]
    constructor
    · rintro ⟨has', only⟩
      refine ⟨fun j sta y get' hasy texty => ?_, fun j k sta other hj hk hasj hask => ?_, fun _ => closed⟩
      · obtain ⟨inside', rfl⟩ := List.getElem?_eq_some_iff.1 get'
        rcases Nat.lt_trichotomy i j with before | rfl | behind'
        · exact .inr ⟨i, before, _, get, has'⟩
        · exact .inl (some.inj (hasy.symm.trans has'))
        · exact absurd (deletion_match_iff.2 ⟨y, hasy, texty, closed⟩) (first j behind')
      · exact (only j sta hj hasj).symm.trans (only k other hk hask)
    · rintro ⟨others, once, -⟩
      have has' : staList[i].Has a := by
        rcases others i _ x get has text with rfl | ⟨j, before, sta, get', has'⟩
        · exact has
        · obtain ⟨inside', rfl⟩ := List.getElem?_eq_some_iff.1 get'
          exact absurd (deletion_match_iff.2 ⟨a, has', rfl, closed⟩) (first j before)
      exact ⟨has', fun j other get' hasj => once i j _ other get get' has' hasj⟩
  case h_2 missed =>
    rw [findIdx?_eq_none_iff] at missed
    rw [eq_map_iff]
    constructor
    · intro absent
      refine ⟨fun i sta x get has text => .inl ?_, fun i j sta other hi hj hasi hasj => ?_, fun ⟨sta, mem, has⟩ => ?_⟩
      · -- without a zero byte the whole address is compared
        refine text.eq fun zero => ?_
        have no := missed sta (mem_of_getElem? get)
        rw [deletion_match_iff.2 ⟨x, has, text, fun nonzero => absurd zero nonzero⟩] at no
        cases no
      · exact absurd hasi (absent sta (mem_of_getElem? hi))
      · exact absurd has (absent sta mem)
    · rintro ⟨-, -, closed⟩ sta mem has
      have no := missed sta mem
      rw [deletion_match_iff.2 ⟨a, has, rfl, closed ⟨sta, mem, has⟩⟩] at no
      cases no

theorem additionRight_of_lookup {memory : Bool}
    (others : ∀ i sta x, staList[i]? = some sta → sta.Has x → Similar x a → x = a ∨ HasBefore staList a i) :
    AdditionRight memory staList a := by
  intro absent i sta get used busy
  have missed : findSTABySA staList (some a) = none := by
    rw [findSTABySA_some, findIdx?_eq_none_iff]
    intro sta mem
    rw [Bool.eq_false_iff, Ne, lookup_match_iff]
    rintro ⟨x, has, similar⟩
    obtain ⟨j, get⟩ := mem_iff_getElem?.1 mem
    rcases others j sta x get has similar with rfl | ⟨k, -, other, get', has'⟩
    · exact absent sta mem has
    · exact absent other (mem_of_getElem? get') has'
  rw [addSTABySA, if_neg (by simp), missed]
  dsimp only
  split
  case h_1 k found =>
    -- the entry that is reused is not this one
    have ne : k ≠ i := by
      rintro rfl
      obtain ⟨inside, free, -⟩ := findIdx?_eq_some_iff_getElem.1 found
      rw [getElem?_eq_getElem inside, some.injEq] at get
      rw [get] at free
      simp [used, busy] at free
    split
    all_goals simp [get, ne]
  case h_2 => exact ⟨by simp, get⟩

/-- The three operations are right exactly when the table distinguishes the address. -/
theorem keyed_iff_distinguished (memory : Bool) (staList : List StaInfo) (a : Address) (behind : UInt8) :
    LookupRight staList a ∧ DeletionRight staList a behind ∧ AdditionRight memory staList a ↔
      Distinguished staList a behind := by
  rw [lookupRight_iff, deletionRight_iff]
  constructor
  · rintro ⟨similar, ⟨sameText, once, closed⟩, -⟩
    exact ⟨similar, sameText, once, closed⟩
  · intro h
    exact ⟨h.similar, ⟨h.sameText, h.once, h.closed⟩, additionRight_of_lookup h.similar⟩

/-- An address is taken for another one that has zero bytes where they differ. -/
theorem not_keyed_zero_bytes : let stored : Address := ⟨[0x02, 0, 0, 0, 0, 0x01], rfl⟩
    let sought : Address := ⟨[0x02, 0x11, 0x22, 0x33, 0x44, 0x01], rfl⟩
    let staList : List StaInfo := [⟨some stored, .data⟩, ⟨none, .off⟩, ⟨none, .off⟩]
    findSTABySA staList (some sought) = some 0 ∧ (addSTABySA true staList (some sought)).1 = some 0 ∧
      ¬ (LookupRight staList sought ∧ DeletionRight staList sought 0 ∧ AdditionRight true staList sought) := by
  refine ⟨by decide, by decide, fun right => ?_⟩
  have same := congrArg List.Vector.toList (some.inj (right.1 0 _ (by decide) rfl))
  exact absurd same (by decide)

end OpenWifi.OpenCapwap
