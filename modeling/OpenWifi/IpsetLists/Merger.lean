import Mathlib.Data.List.Sort
import Mathlib.Data.Nat.Bitwise
import OpenWifi.Lib.Spans
import OpenWifi.Lib.Text

/-!
# Merging lists of IPv4 addresses

`salistCmdParse` adds the range of a line to a table, and `salistClose` sorts the table and merges it in place, reading
at one index and writing at another one that lags behind.
-/

namespace OpenWifi.IpsetLists

open UInt32 (ofInt toNat_ofNat' toNat_and ofNat toNat_or size)
open List

structure Ipv4Range where
  start : UInt32
  stop : UInt32
  deriving DecidableEq, Repr, Inhabited

/-- `struct sa_open_data`: the table, which does not exist before the first range, and the room it has. -/
structure SaOpenData where
  tmpBase : Option (List Ipv4Range)
  tmpSize : ℕ
  deriving DecidableEq

def afterDot : List Char → Option (List Char)
  | '.' :: rest => some rest
  | _ => none

variable (s : List Char)

/-- `sscanf` with `%d.%d.%d.%d`, when it reads all four numbers. -/
def scanQuad : Option (ℤ × ℤ × ℤ × ℤ) := do
  let (a, s) ← scanInt s
  let s ← afterDot s
  let (b, s) ← scanInt s
  let s ← afterDot s
  let (c, s) ← scanInt s
  let s ← afterDot s
  let (d, _) ← scanInt s
  return (a, b, c, d)

def lowByte (z : ℤ) : UInt32 := ofInt z &&& 0xff

/-- `ipv4_stohl`. -/
def ipv4Stohl : UInt32 :=
  match scanQuad s with
  | some (a, b, c, d) => lowByte a <<< 24 ||| lowByte b <<< 16 ||| lowByte c <<< 8 ||| lowByte d
  | none => 0xffffffff

/-- `is_ipv4_addr`. -/
def isIpv4Addr : Bool := (scanQuad s).isSome

variable (od : SaOpenData)

/-- `ipv4_list_add_range`; the table starts with room for a hundred ranges and is doubled when it is full. -/
def ipv4ListAddRange (start stop : UInt32) : SaOpenData :=
  let base := od.tmpBase.getD []
  let size := if od.tmpBase.isNone ∧ od.tmpSize < 100 then 100 else od.tmpSize
  { tmpBase := some (base ++ [⟨start, stop⟩]), tmpSize := if base.length + 1 ≥ size then size * 2 else size }

/-- `ipv4_list_add_netmask`. -/
def ipv4ListAddNetmask (net netMask : UInt32) : SaOpenData :=
  ipv4ListAddRange od (net &&& netMask) (net ||| ~~~netMask)

def netMaskOf (netBits : ℤ) : UInt32 :=
  if netBits = 0 then 0 else ~~~((1 : UInt32) <<< ofInt (32 - netBits) - 1)

/-- `ipv4_list_add_net`. -/
def ipv4ListAddNet (net : UInt32) (netBits : ℤ) : SaOpenData :=
  ipv4ListAddNetmask od net (netMaskOf netBits)

/-- `strchr`, with the text before and behind the character. -/
def strchr (c : Char) : Option (List Char × List Char) :=
  if c ∈ s then some (s.takeWhile (· ≠ c), (s.dropWhile (· ≠ c)).tail) else none

/-- `salist_cmd_parse`, with its return value. -/
def salistCmdParse (cmd : List Char) : ℤ × SaOpenData :=
  match strchr cmd '/' with
  | some (_, []) => (-22, od)
  | some (a1, a2) =>
    if isIpv4Addr a2 then (0, ipv4ListAddNetmask od (ipv4Stohl a1) (ipv4Stohl a2))
    else (0, ipv4ListAddNet od (ipv4Stohl a1) (((scanInt a2).map (·.1)).getD 32))
  | none =>
    match (strchr cmd '-').or (strchr cmd ':') with
    | some (_, []) => (-22, od)
    | some (a1, a2) => (0, ipv4ListAddRange od (ipv4Stohl a1) (ipv4Stohl a2))
    | none => if isIpv4Addr cmd then (0, ipv4ListAddRange od (ipv4Stohl cmd) (ipv4Stohl cmd)) else (-22, od)

/-- `ipv4_range_sort_cmp`. -/
def ipv4RangeSortCmp (ra rb : Ipv4Range) : ℤ :=
  if ra.start > rb.start then 1
  else if ra.start < rb.start then -1
  else if ra.stop > rb.stop then 1
  else if ra.stop < rb.stop then -1
  else 0

/-- `qsort` with this comparison. -/
structure Sorter where
  qsort : List Ipv4Range → List Ipv4Range
  perm : ∀ ranges, (qsort ranges).Perm ranges
  sorted : ∀ ranges, (qsort ranges).Pairwise fun a b => ipv4RangeSortCmp a b ≤ 0

theorem ipv4RangeSortCmp_le_zero {a b : Ipv4Range} : ipv4RangeSortCmp a b ≤ 0 ↔
      a.start.toNat < b.start.toNat ∨ a.start.toNat = b.start.toNat ∧ a.stop.toNat ≤ b.stop.toNat := by
  rw [ipv4RangeSortCmp]
  simp only [GT.gt, UInt32.lt_iff_toNat_lt]
  split_ifs <;> omega

instance : Std.Total fun a b : Ipv4Range => ipv4RangeSortCmp a b ≤ 0 :=
  ⟨fun a b => by simp only [ipv4RangeSortCmp_le_zero]; omega⟩

instance : IsTrans Ipv4Range fun a b => ipv4RangeSortCmp a b ≤ 0 :=
  ⟨fun a b c => by simp only [ipv4RangeSortCmp_le_zero]; omega⟩

def Sorter.insertion : Sorter where
  qsort := List.insertionSort fun a b => ipv4RangeSortCmp a b ≤ 0
  perm := perm_insertionSort _
  sorted := pairwise_insertionSort _

/-- One round of the loop of `salist_close`: the table and the index of the last range written. -/
def mergeRound (st : List Ipv4Range × ℕ) (ri : ℕ) : List Ipv4Range × ℕ :=
  let (base, wi) := st
  let last := base.getD wi default
  let next := base.getD ri default
  if last.stop = 0xffffffff then (base, wi)
  else if next.start ≤ last.stop + 1 then
    if next.stop > last.stop then (base.set wi { last with stop := next.stop }, wi) else (base, wi)
  else (if wi + 1 < ri then base.set (wi + 1) next else base, wi + 1)

/-- The loop over the indices `1 … n - 1`, and the table cut to what was written. -/
def mergeInPlace (base : List Ipv4Range) : List Ipv4Range :=
  let (merged, wi) := (List.range' 1 (base.length - 1)).foldl mergeRound (base, 0)
  merged.take (wi + 1)

/-- `salist_close`. -/
def salistClose (sorter : Sorter) (od : SaOpenData) : SaOpenData :=
  { od with tmpBase := od.tmpBase.map fun base => if base.length ≥ 2 then mergeInPlace (sorter.qsort base) else base }

/-- `salist_open`. -/
def salistOpen : SaOpenData := ⟨none, 0⟩

def mergedRanges (sorter : Sorter) (lines : List (List Char)) : List Ipv4Range :=
  ((salistClose sorter (lines.foldl (fun od line => (salistCmdParse od line).2) salistOpen)).tmpBase).getD []

def Ipv4Range.span (r : Ipv4Range) : Span := ⟨r.start.toNat, r.stop.toNat⟩

def outcome (base : List Ipv4Range) (wi ri : ℕ) : List Span :=
  (base.take wi).map Ipv4Range.span ++ mergeSpans (base.getD wi default).span ((base.drop ri).map Ipv4Range.span)

variable {base : List Ipv4Range}

theorem outcome_mergeRound {wi ri : ℕ} (behind : wi < ri) (inside : ri < base.length) :
    (mergeRound (base, wi) ri).1.length = base.length ∧ (mergeRound (base, wi) ri).2 ≤ ri ∧
      outcome (mergeRound (base, wi) ri).1 (mergeRound (base, wi) ri).2 (ri + 1) = outcome base wi ri := by
  have wi_inside : wi < base.length := by omega
  have unread : (base.drop ri).map Ipv4Range.span =
      (base.getD ri default).span :: (base.drop (ri + 1)).map Ipv4Range.span := by
    rw [drop_eq_getElem_cons inside, map_cons, getD_eq_getElem _ _ inside]
  have written : (base.take (wi + 1)).map Ipv4Range.span =
      (base.take wi).map Ipv4Range.span ++ [(base.getD wi default).span] := by
    rw [take_succ_eq_append_getElem wi_inside, map_append, getD_eq_getElem _ _ wi_inside, map_singleton]
  rw [outcome, outcome, unread, mergeSpans, mergeRound]
  generalize hlast : base.getD wi default = last at *
  generalize hnext : base.getD ri default = next at *
  have start_lt := next.start.toNat_lt
  have stop_lt := next.stop.toNat_lt
  by_cases full : last.stop = 0xffffffff
  · -- the last range reaches the last address, so whatever follows lies in it
    have top : last.span.stop = 2 ^ 32 - 1 := by rw [Ipv4Range.span, full]; rfl
    have covered : (⟨last.span.start, max last.span.stop next.span.stop⟩ : Span) = last.span := by
      rw [Nat.max_eq_left (by rw [top]; exact Nat.le_sub_one_of_lt stop_lt)]
    have near : ¬ last.span.stop + 1 < next.span.start := by
      rw [top]
      dsimp [Ipv4Range.span]
      omega
    rw [if_pos full, if_neg near, hlast, covered]
    exact ⟨rfl, by omega, rfl⟩
  · have room : (last.stop + 1).toNat = last.stop.toNat + 1 := by
      have bound := last.stop.toNat_lt
      have other : last.stop.toNat ≠ 2 ^ 32 - 1 := fun h => full (UInt32.toNat.inj h)
      rw [UInt32.toNat_add, UInt32.toNat_one]
      omega
    have touch_iff : next.start ≤ last.stop + 1 ↔ ¬ last.span.stop + 1 < next.span.start := by
      rw [UInt32.le_iff_toNat_le, room, Nat.not_lt]
      rfl
    rw [if_neg full]
    by_cases touch : next.start ≤ last.stop + 1
    · rw [if_pos touch, if_neg (touch_iff.1 touch)]
      by_cases longer : next.stop > last.stop
      · have wider : max last.span.stop next.span.stop = next.span.stop :=
          Nat.max_eq_right (UInt32.le_iff_toNat_le.1 (UInt32.le_of_lt longer))
        rw [if_pos longer, wider]
        refine ⟨length_set, by omega, ?_⟩
        dsimp only
        rw [take_set_of_le le_rfl, getD_eq_getElem _ _ (by simpa using wi_inside), getElem_set_self,
          drop_set_of_lt (by omega)]
        rfl
      · have covered : (⟨last.span.start, max last.span.stop next.span.stop⟩ : Span) = last.span := by
          have shorter : next.span.stop ≤ last.span.stop := UInt32.le_iff_toNat_le.1 (UInt32.not_lt.1 longer)
          rw [Nat.max_eq_left shorter]
        rw [if_neg longer, hlast, covered]
        exact ⟨rfl, by omega, rfl⟩
    · rw [if_neg touch, if_pos (not_not.1 (mt touch_iff.2 touch))]
      by_cases lag : wi + 1 < ri
      · rw [if_pos lag]
        refine ⟨length_set, by omega, ?_⟩
        dsimp only
        rw [take_set_of_le le_rfl, getD_eq_getElem _ _ (by simp; omega), getElem_set_self,
          drop_set_of_lt (by omega), written, append_assoc, singleton_append]
      · obtain rfl : wi + 1 = ri := by omega
        rw [if_neg lag, hnext, written, append_assoc, singleton_append]
        exact ⟨rfl, le_rfl, rfl⟩

theorem map_span_foldl_mergeRound {wi ri : ℕ} (behind : wi < ri) (rounds : ℕ) (inside : ri + rounds = base.length) :
    let st := (List.range' ri rounds).foldl mergeRound (base, wi)
    (st.1.take (st.2 + 1)).map Ipv4Range.span = outcome base wi ri := by
  induction rounds generalizing base wi ri with
  | zero =>
    have wi_inside : wi < base.length := by omega
    rw [range'_zero, foldl_nil]
    dsimp only
    rw [outcome, drop_eq_nil_of_le (by omega), map_nil, mergeSpans, take_succ_eq_append_getElem wi_inside,
      map_append, map_singleton, getD_eq_getElem _ _ wi_inside]
  | succ rounds ih =>
    obtain ⟨length_eq, near, same⟩ := outcome_mergeRound behind (by omega : ri < base.length)
    have rest := ih (Nat.lt_succ_of_le near) (by rw [length_eq]; omega)
    rw [range'_succ, foldl_cons, ← same]
    exact rest

theorem map_span_mergeInPlace (first : Ipv4Range) (rest : List Ipv4Range) :
    (mergeInPlace (first :: rest)).map Ipv4Range.span = mergeSpans first.span (rest.map Ipv4Range.span) :=
  map_span_foldl_mergeRound Nat.zero_lt_one rest.length (by simp [Nat.add_comm])

theorem start_le_of_sortCmp {a b : Ipv4Range} (h : ipv4RangeSortCmp a b ≤ 0) : a.span.start ≤ b.span.start := by
  rcases ipv4RangeSortCmp_le_zero.1 h with less | ⟨same, -⟩
  · exact less.le
  · exact same.le

structure Exact (ranges : List Ipv4Range) (set : ℕ → Prop) : Prop where
  nonempty : ∀ r ∈ ranges, r.span.start ≤ r.span.stop
  apart : ranges.Pairwise fun a b => a.span.Apart b.span
  covers : ∀ x, (∃ r ∈ ranges, x ∈ r.span) ↔ set x

theorem exact_close (sorter : Sorter) (h : ∀ r ∈ base, r.span.start ≤ r.span.stop) :
    Exact (if base.length ≥ 2 then mergeInPlace (sorter.qsort base) else base) fun x => ∃ r ∈ base, x ∈ r.span := by
  split
  case isFalse short =>
    refine ⟨h, ?_, fun x => Iff.rfl⟩
    match base, short with
    | [], _ => exact .nil
    | [_], _ => exact pairwise_singleton ..
    | _ :: _ :: _, short => exact absurd (Nat.le_add_left ..) short
  case isTrue long =>
    have perm := sorter.perm base
    obtain ⟨first, rest, sorted_eq⟩ : ∃ first rest, sorter.qsort base = first :: rest :=
      exists_cons_of_length_pos (by rw [perm.length_eq]; omega)
    have sorted : ((first :: rest).map Ipv4Range.span).Pairwise fun a b => a.start ≤ b.start := by
      rw [← sorted_eq, pairwise_map]
      exact (sorter.sorted base).imp start_le_of_sortCmp
    have spans := map_span_mergeInPlace first rest
    have whole : ∀ r ∈ first :: rest, r.span.start ≤ r.span.stop := fun r mem => h r (perm.mem_iff.1 (sorted_eq ▸ mem))
    rw [sorted_eq]
    refine ⟨fun r mem => ?_, ?_, fun x => ?_⟩
    · refine start_le_stop_mergeSpans (whole first (by simp)) (fun s hs => ?_) r.span (spans ▸ mem_map_of_mem mem)
      obtain ⟨r, mem, rfl⟩ := mem_map.1 hs
      exact whole r (by simp [mem])
    · rw [← pairwise_map (f := Ipv4Range.span), spans]
      exact apart_mergeSpans sorted
    · have cover := mem_mergeSpans sorted x
      simp only [← spans, ← map_cons, mem_map, exists_exists_and_eq_and] at cover
      rw [cover, ← sorted_eq]
      exact exists_congr fun r => and_congr_left fun _ => perm.mem_iff

structure Numeral (bound : ℕ) where
  digits : List Char
  value : ℕ
  nonempty : digits ≠ []
  isDigit : ∀ c ∈ digits, c.isDigit
  reads : numeral 10 digits = some value
  lt : value < bound

structure DottedQuad where
  a : Numeral 256
  b : Numeral 256
  c : Numeral 256
  d : Numeral 256

namespace DottedQuad

def text (q : DottedQuad) : List Char :=
  q.a.digits ++ '.' :: (q.b.digits ++ '.' :: (q.c.digits ++ '.' :: q.d.digits))

def value (q : DottedQuad) : ℕ := ((q.a.value * 256 + q.b.value) * 256 + q.c.value) * 256 + q.d.value

end DottedQuad

inductive Entry where
  | single (q : DottedQuad)
  | net (q : DottedQuad) (bits : Numeral 33)
  | netmask (q mask : DottedQuad) (contiguous : ∃ k ≤ 32, mask.value = 2 ^ 32 - 2 ^ k)
  | range (first last : DottedQuad) (colon : Bool) (ordered : first.value ≤ last.value)

namespace Entry

def text : Entry → List Char
  | single q => q.text
  | net q bits => q.text ++ '/' :: bits.digits
  | netmask q mask _ => q.text ++ '/' :: mask.text
  | range first last colon _ => first.text ++ (if colon then ':' else '-') :: last.text

def Contains : Entry → ℕ → Prop
  | single q, x => x = q.value
  | net q bits, x => x < 2 ^ 32 ∧ x / 2 ^ (32 - bits.value) = q.value / 2 ^ (32 - bits.value)
  | netmask q mask _, x => x < 2 ^ 32 ∧ x &&& mask.value = q.value &&& mask.value
  | range first last _ _, x => first.value ≤ x ∧ x ≤ last.value

end Entry

theorem Numeral.scanInt {bound : ℕ} (n : Numeral bound) {rest : List Char} (h : NoDigit rest) :
    scanInt (n.digits ++ rest) = some ((n.value : ℤ), rest) := by
  rw [scanInt_append n.isDigit n.nonempty h, n.reads]
  rfl

theorem noDigit_dot (rest : List Char) : NoDigit ('.' :: rest) := by
  simp [NoDigit]

theorem lowByte_natCast {n : ℕ} (h : n < 256) : (lowByte n).toNat = n := by
  have cut : (ofInt (n : ℤ)).toNat = n := by
    rw [ofInt, toNat_ofNat']
    omega
  rw [lowByte, toNat_and, cut]
  exact (Nat.and_two_pow_sub_one_eq_mod n 8).trans (Nat.mod_eq_of_lt h)

theorem toNat_shiftLeft_lowByte {n k : ℕ} (small : n < 256) (near : k ≤ 24) :
    (lowByte n <<< ofNat k).toNat = n * 2 ^ k := by
  have room : n * 2 ^ k < 2 ^ 32 :=
    Nat.lt_of_lt_of_eq (Nat.mul_lt_mul_of_lt_of_le small (Nat.pow_le_pow_right (by decide) near) (by decide))
      (by decide : 2 ^ 8 * 2 ^ 24 = 2 ^ 32)
  rw [UInt32.toNat_shiftLeft, lowByte_natCast small, toNat_ofNat', Nat.mod_eq_of_lt (by omega : k < 2 ^ 32),
    Nat.mod_eq_of_lt (by omega : k < 32), Nat.shiftLeft_eq, Nat.mod_eq_of_lt room]

namespace DottedQuad

section

variable (q : DottedQuad)
include q

theorem value_lt : q.value < 2 ^ 32 := by
  have ha := q.a.lt
  have hb := q.b.lt
  have hc := q.c.lt
  have hd := q.d.lt
  rw [value]
  omega

theorem scanQuad_text :
    scanQuad q.text = some ((q.a.value : ℤ), (q.b.value : ℤ), (q.c.value : ℤ), (q.d.value : ℤ)) := by
  have last := q.d.scanInt noDigit_nil
  rw [append_nil] at last
  simp [scanQuad, text, Numeral.scanInt _ (noDigit_dot _), afterDot, last]

theorem isIpv4Addr_text : isIpv4Addr q.text := by
  rw [isIpv4Addr, q.scanQuad_text]
  rfl

theorem toNat_ipv4Stohl : (ipv4Stohl q.text).toNat = q.value := by
  have ha := q.a.lt
  have hb := q.b.lt
  have hc := q.c.lt
  have hd := q.d.lt
  have join : ∀ {m k y : ℕ}, y < 2 ^ k → m * 2 ^ k ||| y = m * 2 ^ k + y := fun {m k y} h => by
    rw [Nat.mul_comm, Nat.two_pow_add_eq_or_of_lt h]
  have first : (lowByte q.a.value <<< 24).toNat = q.a.value * 2 ^ 24 := toNat_shiftLeft_lowByte ha (by decide)
  have second : (lowByte q.b.value <<< 16).toNat = q.b.value * 2 ^ 16 := toNat_shiftLeft_lowByte hb (by decide)
  have third : (lowByte q.c.value <<< 8).toNat = q.c.value * 2 ^ 8 := toNat_shiftLeft_lowByte hc (by decide)
  have widen : ∀ m n k : ℕ, m * 2 ^ (k + 8) + n * 2 ^ k = (m * 256 + n) * 2 ^ k := fun m n k => by
    rw [Nat.pow_add, Nat.mul_comm (2 ^ k), ← Nat.mul_assoc, ← Nat.add_mul]
  rw [ipv4Stohl, q.scanQuad_text]
  dsimp only
  rw [toNat_or, toNat_or, toNat_or, first, second, third, lowByte_natCast hd,
    join (by omega : q.b.value * 2 ^ 16 < 2 ^ 24), widen _ _ 16,
    join (by omega : q.c.value * 2 ^ 8 < 2 ^ 16), widen _ _ 8,
    join (show q.d.value < 2 ^ 8 from hd)]
  rfl

theorem text_ne_nil : q.text ≠ [] := by
  simp [text]

theorem not_mem_text {c : Char} (h : c.isDigit = false) (dot : c ≠ '.') : c ∉ q.text := by
  have other : ∀ {bound : ℕ} (n : Numeral bound), c ∉ n.digits := fun n mem => absurd (n.isDigit c mem) (by simp [h])
  simp [text, other, dot]

end

end DottedQuad

theorem and_contiguous {n k : ℕ} (h : k ≤ 32) (small : n < 2 ^ 32) : n &&& (2 ^ 32 - 2 ^ k) = n / 2 ^ k * 2 ^ k := by
  have mask : 2 ^ 32 - 2 ^ k = 2 ^ 32 - (2 ^ k - 1 + 1) := by
    rw [Nat.sub_add_cancel Nat.one_le_two_pow]
  have below : 2 ^ k - 1 < 2 ^ 32 :=
    Nat.lt_of_lt_of_le (Nat.sub_lt (Nat.two_pow_pos k) Nat.one_pos) (Nat.pow_le_pow_right (by decide) h)
  apply Nat.eq_of_testBit_eq
  intro i
  rw [Nat.testBit_and, mask, Nat.testBit_two_pow_sub_succ below, Nat.testBit_two_pow_sub_one, Nat.testBit_mul_two_pow,
    Nat.testBit_div_two_pow]
  by_cases low : i < k
  · simp [low]
  · have up : i - k + k = i := by omega
    by_cases inside : i < 32
    · simp [low, inside, up, (by omega : k ≤ i)]
    · have clear : n.testBit i = false :=
        Nat.testBit_lt_two_pow (Nat.lt_of_lt_of_le small (Nat.pow_le_pow_right (by decide) (by omega)))
      simp [clear, up]

theorem or_low_bits (n k : ℕ) : n ||| (2 ^ k - 1) = n / 2 ^ k * 2 ^ k + (2 ^ k - 1) := by
  rw [Nat.mul_comm, Nat.two_pow_add_eq_or_of_lt (Nat.sub_lt (Nat.two_pow_pos k) Nat.one_pos)]
  apply Nat.eq_of_testBit_eq
  intro i
  rw [Nat.testBit_or, Nat.testBit_or, Nat.testBit_two_pow_sub_one, Nat.testBit_two_pow_mul, Nat.testBit_div_two_pow]
  by_cases low : i < k
  · simp [low]
  · simp [low, (by omega : i - k + k = i), (by omega : k ≤ i)]

theorem mem_net_iff {n x k : ℕ} : (n / 2 ^ k * 2 ^ k ≤ x ∧ x ≤ n / 2 ^ k * 2 ^ k + (2 ^ k - 1)) ↔
    x / 2 ^ k = n / 2 ^ k := by
  have pos := Nat.two_pow_pos k
  rw [Nat.div_eq_iff pos]
  omega

theorem toNat_netMaskOf {bits : ℕ} (h : bits < 33) : (netMaskOf bits).toNat = 2 ^ 32 - 2 ^ (32 - bits) := by
  rw [netMaskOf]
  split
  case isTrue zero =>
    obtain rfl : bits = 0 := by omega
    rfl
  case isFalse some_bit =>
    have all : ∀ bits : ℕ, bits < 33 → bits ≠ 0 →
        (~~~((1 : UInt32) <<< ofInt (32 - (bits : ℤ)) - 1)).toNat = 2 ^ 32 - 2 ^ (32 - bits) := by
      decide
    exact all bits h (by omega)

variable {net mask : UInt32}

theorem span_net {k : ℕ} (h : k ≤ 32) (contiguous : mask.toNat = 2 ^ 32 - 2 ^ k) :
    (⟨net &&& mask, net ||| ~~~mask⟩ : Ipv4Range).span =
      ⟨net.toNat / 2 ^ k * 2 ^ k, net.toNat / 2 ^ k * 2 ^ k + (2 ^ k - 1)⟩ := by
  have le : 2 ^ k ≤ 2 ^ 32 := Nat.pow_le_pow_right (by decide) h
  have host : (~~~mask).toNat = 2 ^ k - 1 := by
    rw [UInt32.toNat_not, contiguous, size]
    omega
  rw [Ipv4Range.span, toNat_and, toNat_or, host, contiguous, and_contiguous h net.toNat_lt, or_low_bits]

theorem strchr_append {c : Char} {front : List Char} (h : c ∉ front) (rest : List Char) :
    strchr (front ++ c :: rest) c = some (front, rest) := by
  have before : ∀ d ∈ front, decide (d ≠ c) = true := fun d mem => decide_eq_true fun same => h (same ▸ mem)
  rw [strchr, if_pos (by simp), takeWhile_append_of_pos before, dropWhile_append_of_pos before]
  simp

theorem strchr_eq_none {c : Char} {s : List Char} (h : c ∉ s) : strchr s c = none := if_neg h

structure Entry.Means (e : Entry) (r : Ipv4Range) : Prop where
  nonempty : r.span.start ≤ r.span.stop
  covers : ∀ x, x ∈ r.span ↔ e.Contains x

theorem mem_span_net {k : ℕ} (h : k ≤ 32) (contiguous : mask.toNat = 2 ^ 32 - 2 ^ k) (x : ℕ) :
    x ∈ (⟨net &&& mask, net ||| ~~~mask⟩ : Ipv4Range).span ↔ x < 2 ^ 32 ∧ x / 2 ^ k = net.toNat / 2 ^ k := by
  have upper : x ∈ (⟨net &&& mask, net ||| ~~~mask⟩ : Ipv4Range).span → x < 2 ^ 32 := fun mem =>
    Nat.lt_of_le_of_lt mem.2 (UInt32.toNat_lt _)
  rw [← and_iff_right_of_imp upper, span_net h contiguous, Span.mem_iff, mem_net_iff]

theorem nonempty_span_net {k : ℕ} (h : k ≤ 32) (contiguous : mask.toNat = 2 ^ 32 - 2 ^ k) :
    (⟨net &&& mask, net ||| ~~~mask⟩ : Ipv4Range).span.start ≤
    (⟨net &&& mask, net ||| ~~~mask⟩ : Ipv4Range).span.stop := by
  rw [span_net h contiguous]
  exact Nat.le_add_right ..

theorem exists_range_salistCmdParse (e : Entry) (od : SaOpenData) :
    ∃ r, e.Means r ∧ salistCmdParse od e.text = (0, ipv4ListAddRange od r.start r.stop) := by
  cases e with
  | single q =>
    have slash := strchr_eq_none (q.not_mem_text (c := '/') (by decide) (by decide))
    have dash := strchr_eq_none (q.not_mem_text (c := '-') (by decide) (by decide))
    have colon := strchr_eq_none (q.not_mem_text (c := ':') (by decide) (by decide))
    refine ⟨⟨ipv4Stohl q.text, ipv4Stohl q.text⟩, ⟨le_rfl, fun x => ?_⟩, ?_⟩
    · rw [Span.mem_iff, Entry.Contains, Ipv4Range.span, q.toNat_ipv4Stohl, and_comm]
      exact Nat.le_antisymm_iff.symm
    · rw [salistCmdParse, Entry.text, slash, dash, colon]
      simp [q.isIpv4Addr_text]
  | net q bits =>
    have slash := strchr_append (q.not_mem_text (c := '/') (by decide) (by decide)) bits.digits
    have scan := bits.scanInt noDigit_nil
    rw [append_nil] at scan
    have mask := toNat_netMaskOf bits.lt
    have le : 32 - bits.value ≤ 32 := Nat.sub_le ..
    refine ⟨⟨ipv4Stohl q.text &&& netMaskOf bits.value, ipv4Stohl q.text ||| ~~~netMaskOf bits.value⟩,
      ⟨nonempty_span_net le mask, fun x => ?_⟩, ?_⟩
    · rw [mem_span_net le mask, Entry.Contains, q.toNat_ipv4Stohl]
    · have no_quad : isIpv4Addr bits.digits = false := by
        simp [isIpv4Addr, scanQuad, scan, afterDot]
      obtain ⟨c, more, digits⟩ := exists_cons_of_ne_nil bits.nonempty
      rw [salistCmdParse, Entry.text, slash]
      simp only [digits]
      rw [← digits, no_quad, scan]
      rfl
  | netmask q mask contiguous =>
    obtain ⟨k, le, value⟩ := contiguous
    have slash := strchr_append (q.not_mem_text (c := '/') (by decide) (by decide)) mask.text
    have hmask : (ipv4Stohl mask.text).toNat = 2 ^ 32 - 2 ^ k := by rw [mask.toNat_ipv4Stohl, value]
    refine ⟨⟨ipv4Stohl q.text &&& ipv4Stohl mask.text, ipv4Stohl q.text ||| ~~~ipv4Stohl mask.text⟩,
      ⟨nonempty_span_net le hmask, fun x => ?_⟩, ?_⟩
    · rw [mem_span_net le hmask, Entry.Contains, q.toNat_ipv4Stohl, value]
      refine and_congr_right fun small => ?_
      rw [and_contiguous le small, and_contiguous le q.value_lt, Nat.mul_right_cancel_iff (Nat.two_pow_pos k)]
    · obtain ⟨c, more, text⟩ := exists_cons_of_ne_nil mask.text_ne_nil
      rw [salistCmdParse, Entry.text, slash]
      simp only [text]
      rw [← text, mask.isIpv4Addr_text]
      rfl
  | range first last colon ordered =>
    refine ⟨⟨ipv4Stohl first.text, ipv4Stohl last.text⟩, ⟨?_, fun x => ?_⟩, ?_⟩
    · rw [Ipv4Range.span, first.toNat_ipv4Stohl, last.toNat_ipv4Stohl]
      exact ordered
    · rw [Span.mem_iff, Entry.Contains, Ipv4Range.span, first.toNat_ipv4Stohl, last.toNat_ipv4Stohl]
    · have whole : ∀ {c d : Char}, c.isDigit = false → c ≠ '.' → c ≠ d → c ∉ first.text ++ d :: last.text :=
        fun {c d} digit dot other => by
          simp [first.not_mem_text digit dot, last.not_mem_text digit dot, other]
      obtain ⟨c, more, text⟩ := exists_cons_of_ne_nil last.text_ne_nil
      cases colon
      · have slash := strchr_eq_none (whole (c := '/') (d := '-') (by decide) (by decide) (by decide))
        have dash := strchr_append (first.not_mem_text (c := '-') (by decide) (by decide)) last.text
        rw [salistCmdParse, Entry.text, if_neg Bool.false_ne_true, slash, dash]
        simp [text, Option.some_or]
      · have slash := strchr_eq_none (whole (c := '/') (d := ':') (by decide) (by decide) (by decide))
        have dash := strchr_eq_none (whole (c := '-') (d := ':') (by decide) (by decide) (by decide))
        have colon := strchr_append (first.not_mem_text (c := ':') (by decide) (by decide)) last.text
        rw [salistCmdParse, Entry.text, if_pos rfl, slash, dash, colon]
        simp [text]

theorem exists_ranges_foldl (entries : List Entry) (od : SaOpenData) : ∃ ranges : List Ipv4Range,
      ((entries.map Entry.text).foldl (fun od line => (salistCmdParse od line).2) od).tmpBase.getD [] =
        od.tmpBase.getD [] ++ ranges ∧ (∀ r ∈ ranges, r.span.start ≤ r.span.stop) ∧
      ∀ x, (∃ r ∈ ranges, x ∈ r.span) ↔ ∃ e ∈ entries, e.Contains x := by
  induction entries generalizing od with
  | nil => exact ⟨[], (append_nil _).symm, by simp, by simp⟩
  | cons e entries ih =>
    obtain ⟨r, means, parse⟩ := exists_range_salistCmdParse e od
    obtain ⟨ranges, base, nonempty, covers⟩ := ih (ipv4ListAddRange od r.start r.stop)
    refine ⟨r :: ranges, ?_, forall_mem_cons.2 ⟨means.nonempty, nonempty⟩, fun x => ?_⟩
    · rw [map_cons, foldl_cons, parse, base]
      simp [ipv4ListAddRange]
    · rw [exists_mem_cons_iff, exists_mem_cons_iff, means.covers, covers]

theorem mergedRanges_eq (sorter : Sorter) (lines : List (List Char)) :
    let base := (lines.foldl (fun od line => (salistCmdParse od line).2) salistOpen).tmpBase.getD []
    mergedRanges sorter lines = if base.length ≥ 2 then mergeInPlace (sorter.qsort base) else base := by
  rw [mergedRanges, salistClose]
  cases (lines.foldl (fun od line => (salistCmdParse od line).2) salistOpen).tmpBase with
  | none => rfl
  | some base => rfl

/-- The merged ranges are exact for the addresses that the lines mean. -/
theorem exact_mergedRanges (sorter : Sorter) (entries : List Entry) :
    Exact (mergedRanges sorter (entries.map Entry.text)) fun x => ∃ e ∈ entries, e.Contains x := by
  obtain ⟨ranges, base, nonempty, covers⟩ := exists_ranges_foldl entries salistOpen
  have table : salistOpen.tmpBase.getD [] ++ ranges = ranges := rfl
  rw [mergedRanges_eq, base, table]
  have closed := exact_close sorter nonempty
  exact ⟨closed.nonempty, closed.apart, fun x => (closed.covers x).trans (covers x)⟩

/-- Three lines of different forms that make one range up to the last address. -/
example : mergedRanges .insertion
    ["255.255.255.255".toList, "255.255.0.0/17".toList, "255.255.128.0-255.255.255.254".toList] =
      [⟨0xffff0000, 0xffffffff⟩] := by
  decide +kernel

end OpenWifi.IpsetLists
