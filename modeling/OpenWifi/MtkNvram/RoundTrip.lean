import Mathlib.Data.List.Forall2
import Mathlib.Data.List.ReduceOption
import OpenWifi.MtkNvram.Commit

/-!
# A commit that is parsed again

When the strings of every section end before the section does, the file has the checksum and the strings of each section
in its place, and parsing gives the same entries.
-/

namespace OpenWifi.MtkNvram

open List Option Memory

variable {crc32 : List UInt8 → UInt32} {b b' : Buffer} {c : Cached} {cs : List Cached} {len : ℕ}
    {file file' : ℕ → UInt8}

structure Layout (len : ℕ) (layout : List Section) : Prop where
  inside : ∀ s ∈ layout, s.offset + s.size ≤ len
  disjoint : layout.Pairwise fun s t => s.offset + s.size ≤ t.offset ∨ t.offset + t.size ≤ s.offset
  small : len < 2 ^ 32

theorem Layout.tail (layout : Layout len ((c :: cs).map (·.sect))) : Layout len (cs.map (·.sect)) ∧
    ∀ d ∈ cs, c.sect.offset + c.sect.size ≤ d.sect.offset ∨ d.sect.offset + d.sect.size ≤ c.sect.offset := by
  obtain ⟨apart, disjoint⟩ := pairwise_cons.1 layout.disjoint
  exact ⟨⟨fun s mem => layout.inside s (mem_cons_of_mem _ mem), disjoint, layout.small⟩,
    fun d mem => apart d.sect (mem_map_of_mem mem)⟩

/-- The key is not empty, starts with a printable character and has no `=`; both are strings. -/
structure Entry.Valid (e : Entry) : Prop where
  first : ∃ first rest, e.name = first :: rest ∧ 32 ≤ first ∧ first ≤ 126
  noEqual : 61 ∉ e.name
  nameEnds : 0 ∉ e.name
  valueEnds : 0 ∉ e.value

def Cached.Fits (c : Cached) : Prop := c.image.length + 5 ≤ c.sect.size

def Cached.Fresh (fresh : Section → List (Option Entry)) (c : Cached) : Prop :=
  ∀ e ∈ ((fresh c.sect).drop c.entries.length).reduceOption, ∃ e' ∈ c.entries, e'.name = e.name

def Cached.reparsed (fresh : Section → List (Option Entry)) (c : Cached) : Cached :=
  ⟨c.sect, c.entries.map some ++ (fresh c.sect).drop c.entries.length⟩

def Cached.SameMap (c d : Cached) : Prop := d.sect = c.sect ∧ ∀ key, d.get key = c.get key

/-! ## The committed file -/

def Cached.Stored (crc32 : List UInt8 → UInt32) (c : Cached) (file : ℕ → UInt8) : Prop :=
  slice file c.sect.offset 4 = wordBytes (crc32 (slice file (c.sect.offset + 4) c.sect.crcLength)) ∧
  slice file (c.sect.offset + 4) (c.image.length + 1) = c.image ++ [0]

theorem Section.crcLength_eq {s : Section} (lower : 4 ≤ s.size) (upper : s.size < 2 ^ 32) :
    s.crcLength = s.size - 4 := by
  unfold crcLength
  omega

theorem Cached.Stored.congr (stored : c.Stored crc32 file) (fits : c.Fits) (upper : c.sect.size < 2 ^ 32)
    (same : ∀ i, c.sect.offset ≤ i → i < c.sect.offset + c.sect.size → file' i = file i) : c.Stored crc32 file' := by
  have room : c.image.length + 5 ≤ c.sect.size := fits
  have words := c.sect.crcLength_eq (by omega) upper
  refine ⟨?_, ?_⟩
  · rw [slice_congr fun i lower below => same i (by omega) (by omega),
      slice_congr (p := c.sect.offset + 4) fun i lower below => same i (by omega) (by omega)]
    exact stored.1
  · rw [slice_congr fun i lower below => same i (by omega) (by omega)]
    exact stored.2

theorem Buffer.stored_writeSection (written : b.writeSection crc32 c = some b') (fits : c.Fits)
    (upper : c.sect.size < 2 ^ 32) : c.Stored crc32 b'.bytes := by
  have room : c.image.length + 5 ≤ c.sect.size := fits
  have words := c.sect.crcLength_eq (by omega) upper
  have parts : b'.bytes = store (store b.bytes c.sect.offset (wordBytes _)) (c.sect.offset + 4) (c.image ++ [0]) :=
    (writeSection_eq_some written).1.trans (store_store _ _ _ _).symm
  have bytes := (writeSection_eq_some written).1
  have whole := slice_store b.bytes c.sect.offset (c.chunk crc32 b.bytes)
  rw [← bytes, c.length_chunk, show 5 + c.image.length = 4 + (c.image.length + 1) by omega, slice_add] at whole
  obtain ⟨word, image⟩ := append_inj whole (by simp)
  refine ⟨word.trans ?_, image⟩
  refine congrArg (fun body => wordBytes (crc32 body)) (slice_congr fun i lower below => ?_)
  rw [parts]
  exact store_congr (store_outside (.inr lower)).symm

theorem commitSections_outside {ok : Bool} {i : ℕ} (commit : commitSections crc32 cs b file = (ok, b', file'))
    (outside : ∀ c ∈ cs, i < c.sect.offset ∨ c.sect.offset + c.sect.size ≤ i) : file' i = file i := by
  induction cs generalizing b file with
  | nil => exact congrFun (Prod.mk.inj (Prod.mk.inj commit).2).2.symm i
  | cons c cs ih =>
    rw [commitSections] at commit
    split at commit
    · exact congrFun (Prod.mk.inj (Prod.mk.inj commit).2).2.symm i
    · refine (ih commit fun c' mem => outside c' (mem_cons_of_mem _ mem)).trans (store_outside ?_)
      simpa using outside c mem_cons_self

theorem commitSections_stored (layout : Layout len (cs.map (·.sect))) (fits : ∀ c ∈ cs, c.Fits)
    (commit : commitSections crc32 cs b file = (true, b', file')) : ∀ c ∈ cs, c.Stored crc32 file' := by
  induction cs generalizing b file with
  | nil => simp
  | cons c cs ih =>
    obtain ⟨rest, apart⟩ := layout.tail
    have inside := layout.inside c.sect mem_cons_self
    have small := layout.small
    rw [commitSections] at commit
    split at commit
    · cases commit
    case h_2 b₁ written =>
      intro d mem
      rcases mem_cons.1 mem with rfl | mem
      · have stored := Buffer.stored_writeSection written (fits d mem_cons_self) (by omega)
        refine stored.congr (fits d mem_cons_self) (by omega) fun i lower below => ?_
        rw [commitSections_outside commit fun c' mem' => ?_, store_slice lower below]
        have gap := apart c' mem'
        omega
      · exact ih rest (fun c' mem' => fits c' (mem_cons_of_mem _ mem')) commit d mem

variable {data : ℕ → UInt8}

theorem scan_eq {p : ℕ} {stop : UInt8 → Bool} {text : List UInt8} {c : UInt8}
    (bytes : slice data p (text.length + 1) = text ++ [c]) (stops : stop c) (goes : ∀ x ∈ text, ¬ stop x)
    (inside : p + text.length < len) : scan data len p stop = some text := by
  have whole : slice data p (len - p) = text ++ c :: slice data (p + (text.length + 1))
    (len - p - (text.length + 1)) := by
    conv_lhs => rw [show len - p = (text.length + 1) + (len - p - (text.length + 1)) by omega]
    rw [slice_add, bytes, append_assoc, singleton_append]
  have taken : (slice data p (len - p)).takeWhile (fun c => !stop c) = text := by
    rw [whole, takeWhile_append_of_pos fun x mem => by simpa using goes x mem,
      takeWhile_cons_of_neg (by simpa using stops), append_nil]
  rw [scan, taken]
  exact if_pos inside

theorem parseEntries_image {fin : ℕ} (bounded : fin ≤ len) {es : List Entry} (valid : ∀ e ∈ es, e.Valid) {j : ℕ}
    (enough : es.length ≤ j) {p : ℕ}
    (bytes : slice data p ((es.flatMap Entry.bytes).length + 1) = es.flatMap Entry.bytes ++ [0])
    (inside : p + (es.flatMap Entry.bytes).length < fin) : ∃ data', parseEntries len fin j data p = some (data', es) ∧
      ∀ i, i < p ∨ p + (es.flatMap Entry.bytes).length ≤ i → data' i = data i := by
  induction es generalizing j data p with
  | nil =>
    have zero : data p = 0 := by simpa [slice] using bytes
    refine ⟨data, ?_, fun _ _ => rfl⟩
    cases j with
    | zero => rfl
    | succ j => exact if_pos (.inr (.inl (by rw [zero]; decide)))
  | cons e es ih =>
    obtain ⟨j, rfl⟩ : ∃ k, j = k + 1 := ⟨j - 1, by simp at enough; omega⟩
    have ok := valid e mem_cons_self
    obtain ⟨first, more, name, low, high⟩ := ok.first
    simp only [flatMap_cons, length_append] at bytes inside ⊢
    have size : e.bytes.length = e.name.length + 1 + (e.value.length + 1) := by simp [Entry.bytes]; omega
    rw [size] at bytes inside ⊢
    -- the name with `=`, the value with its zero, and the rest
    have split : slice data p (e.name.length + 1) = e.name ++ [61] ∧
        slice data (p + (e.name.length + 1)) (e.value.length + 1) = e.value ++ [0] ∧
        slice data (p + (e.name.length + 1) + (e.value.length + 1)) ((es.flatMap Entry.bytes).length + 1) =
          es.flatMap Entry.bytes ++ [0] := by
      rw [Nat.add_assoc, Nat.add_assoc (e.name.length + 1), slice_add _ _ (e.name.length + 1),
        slice_add _ _ (e.value.length + 1), show e.bytes ++ es.flatMap Entry.bytes ++ [0] =
          (e.name ++ [61]) ++ ((e.value ++ [0]) ++ (es.flatMap Entry.bytes ++ [0])) by simp [Entry.bytes]] at bytes
      obtain ⟨first, others⟩ := append_inj bytes (by simp)
      exact ⟨first, append_inj others (by simp)⟩
    obtain ⟨nameBytes, valueBytes, restBytes⟩ := split
    have start : data p = first := by
      have := congrArg List.head? nameBytes
      simpa [slice, name, range'_succ] using this
    have equal : data (p + e.name.length) = 61 := by
      have := congrArg (·[e.name.length]?) nameBytes
      simpa only [getElem?_slice (Nat.lt_succ_self _), getElem?_concat_length, some.injEq] using this
    have scanName : scan data len p (fun c => c = 0 || c = 61) = some e.name := by
      refine scan_eq nameBytes rfl (fun x mem => ?_) (by omega)
      have zero : x ≠ 0 := fun h => ok.nameEnds (h ▸ mem)
      have sign : x ≠ 61 := fun h => ok.noEqual (h ▸ mem)
      simp [zero, sign]
    have scanValue : scan data len (p + e.name.length + 1) (fun c => c = 0) = some e.value := by
      refine scan_eq valueBytes rfl (fun x mem => ?_) (by omega)
      have zero : x ≠ 0 := fun h => ok.valueEnds (h ▸ mem)
      simp [zero]
    have next : slice (store data (p + e.name.length) [0]) (p + (e.name.length + 1) + (e.value.length + 1))
        ((es.flatMap Entry.bytes).length + 1) = es.flatMap Entry.bytes ++ [0] :=
      (slice_congr fun i lower below => store_outside (.inr (by simp; omega))).trans restBytes
    obtain ⟨data', parsed, kept⟩ := ih (fun e' mem => valid e' (mem_cons_of_mem _ mem)) (by simpa using enough) next
      (by omega)
    refine ⟨data', ?_, fun i outside => ?_⟩
    · have running : ¬ (fin ≤ p ∨ data p < 32 ∨ 128 ≤ data p) := by
        rw [start]
        rintro (ended | below | above)
        · omega
        · exact absurd low (UInt8.not_le.2 below)
        · exact absurd (UInt8.le_trans above high) (by decide)
      have again : data (p + e.name.length) ≠ 0 := by rw [equal]; decide
      rw [parseEntries, if_neg running, scanName]
      simp only [bind_eq_bind, bind_some, if_neg again, scanValue]
      rw [show p + e.name.length + 1 + e.value.length + 1 = p + (e.name.length + 1) + (e.value.length + 1) by omega,
        parsed]
      rfl
    · rw [kept i (by omega)]
      exact store_outside (by simp; omega)

variable {fresh : Section → List (Option Entry)}

theorem parseSections_stored (layout : Layout len (cs.map (·.sect)))
    (fits : ∀ c ∈ cs, c.Fits) (valid : ∀ c ∈ cs, ∀ e ∈ c.entries, e.Valid) (short : ∀ c ∈ cs, c.cache.length = 500)
    (stored : ∀ c ∈ cs, c.Stored crc32 data) :
    parseSections len fresh (cs.map (·.sect)) data = some (cs.map (Cached.reparsed fresh)) := by
  induction cs generalizing data with
  | nil => rfl
  | cons c cs ih =>
    obtain ⟨rest, apart⟩ := layout.tail
    have inside := layout.inside c.sect mem_cons_self
    have room : c.image.length + 5 ≤ c.sect.size := fits c mem_cons_self
    have enough : c.entries.length ≤ 500 := by
      rw [← short c mem_cons_self]
      exact reduceOption_length_le _
    obtain ⟨data', parsed, kept⟩ := parseEntries_image inside
      (valid c mem_cons_self) enough (stored c mem_cons_self).2 (by show _ + 4 + c.image.length < _; omega)
    have others : ∀ d ∈ cs, d.Stored crc32 data' := by
      intro d mem
      have small := layout.small
      have within := layout.inside d.sect (mem_cons_of_mem _ (mem_map_of_mem mem))
      refine (stored d (mem_cons_of_mem _ mem)).congr (fits d (mem_cons_of_mem _ mem)) (by omega)
        fun i lower below => kept i ?_
      have gap := apart d mem
      show i < _ ∨ _ + 4 + c.image.length ≤ i
      omega
    have tail := ih rest (fun d mem => fits d (mem_cons_of_mem _ mem)) (fun d mem => valid d (mem_cons_of_mem _ mem))
      (fun d mem => short d (mem_cons_of_mem _ mem)) others
    simp only [map_cons, parseSections, parsed, tail, bind_eq_bind, bind_some]
    rfl

/-! ## The round trip -/

theorem Cached.sameMap_reparsed : c.SameMap (c.reparsed fresh) ↔ c.Fresh fresh := by
  have entries : (c.reparsed fresh).entries = c.entries ++ ((fresh c.sect).drop c.entries.length).reduceOption := by
    simp [reparsed, Cached.entries, List.reduceOption, filterMap_map]
  unfold Fresh SameMap get
  rw [entries, and_iff_right (show (c.reparsed fresh).sect = c.sect from rfl)]
  generalize ((fresh c.sect).drop c.entries.length).reduceOption = rest
  simp only [find?_append]
  refine ⟨fun same e mem => ?_, fun known key => ?_⟩
  · by_contra none
    have missing : c.entries.find? (·.name = e.name) = .none :=
      find?_eq_none.2 fun e' mem' => by simpa using fun eq => none ⟨e', mem', eq⟩
    have := same e.name
    rw [missing, none_or, map_none, map_eq_none_iff, find?_eq_none] at this
    exact this e mem (by simp)
  · cases found : c.entries.find? (·.name = key) with
    | some e => rfl
    | none =>
      have missing : rest.find? (·.name = key) = .none := by
        refine find?_eq_none.2 fun e mem eq => ?_
        obtain ⟨e', mem', same⟩ := known e mem
        exact find?_eq_none.1 found e' mem' (by simpa [same] using eq)
      rw [missing, none_or]

theorem commitSections_log (commit : commitSections crc32 cs b file = (true, b', file')) : b.log ⊆ b'.log ∧
    (∀ c ∈ cs, (c.sect, c.sect.offset + 4 + c.image.length, c.sect.offset + 5 + c.image.length) ∈ b'.log) ∧
    ∀ w ∈ b'.log, w ∈ b.log ∨
      ∃ c ∈ cs, w.1 = c.sect ∧ c.sect.offset ≤ w.2.1 ∧ w.2.2 ≤ c.sect.offset + 5 + c.image.length := by
  induction cs generalizing b file with
  | nil =>
    obtain ⟨-, rest⟩ := Prod.mk.inj commit
    cases rest
    exact ⟨fun w mem => mem, by simp, fun w mem => .inl mem⟩
  | cons c cs ih =>
    rw [commitSections] at commit
    split at commit
    · cases commit
    case h_2 b₁ written =>
      obtain ⟨-, -, last, mono, bounds⟩ := Buffer.writeSection_eq_some written
      obtain ⟨mono', lasts, bounds'⟩ := ih commit
      refine ⟨fun w mem => mono' (mono mem), forall_mem_cons.2 ⟨mono' last, lasts⟩, fun w mem => ?_⟩
      rcases bounds' w mem with mem | ⟨d, mem, bound⟩
      · exact (bounds w mem).imp_right fun bound => ⟨c, mem_cons_self, bound⟩
      · exact .inr ⟨d, mem_cons_of_mem _ mem, bound⟩

structure RoundTrip (crc32 : List UInt8 → UInt32) (len : ℕ) (fresh : Section → List (Option Entry)) (cs : List Cached)
    (file : ℕ → UInt8) (b : Buffer) (file' : ℕ → UInt8) : Prop where
  touched : ∀ w ∈ b.log, w.1.offset ≤ w.2.1 ∧ w.2.2 ≤ w.1.offset + w.1.size
  outside : ∀ i, (∀ c ∈ cs, i < c.sect.offset ∨ c.sect.offset + c.sect.size ≤ i) → file' i = file i
  checksums : ∀ c ∈ cs,
    slice file' c.sect.offset 4 = wordBytes (crc32 (slice file' (c.sect.offset + 4) c.sect.crcLength))
  parsed : ∃ ds, parseSections len fresh (cs.map (·.sect)) file' = some ds ∧ List.Forall₂ Cached.SameMap cs ds

/-- A commit that returns `OK` is parsed again to what was written exactly when the strings of every section end
before it does and the memory of the new cache has no other keys. -/
theorem nvramCommit_roundTrip_iff {memory : ℕ → UInt8}
    (layout : Layout len (cs.map (·.sect))) (valid : ∀ c ∈ cs, ∀ e ∈ c.entries, e.Valid)
    (short : ∀ c ∈ cs, c.cache.length = 500) (commit : nvramCommit crc32 cs memory file = (true, b, file')) :
    RoundTrip crc32 len fresh cs file b file' ↔ ∀ c ∈ cs, c.Fits ∧ c.Fresh fresh := by
  obtain ⟨-, lasts, bounds⟩ := commitSections_log commit
  have parses (fits : ∀ c ∈ cs, c.Fits) :
      parseSections len fresh (cs.map (·.sect)) file' = some (cs.map (Cached.reparsed fresh)) :=
    parseSections_stored layout fits valid short (commitSections_stored layout fits commit)
  have maps : List.Forall₂ Cached.SameMap cs (cs.map (Cached.reparsed fresh)) ↔ ∀ c ∈ cs, c.Fresh fresh := by
    rw [forall₂_map_right_iff, forall₂_same]
    exact forall₂_congr fun c _ => Cached.sameMap_reparsed
  constructor
  · intro trip
    have fits : ∀ c ∈ cs, c.Fits := by
      intro c mem
      have upper := (trip.touched _ (lasts c mem)).2
      show c.image.length + 5 ≤ c.sect.size
      simp only at upper
      omega
    obtain ⟨ds, parsed, same⟩ := trip.parsed
    obtain rfl := some.inj (parsed.symm.trans (parses fits))
    exact fun c mem => ⟨fits c mem, maps.1 same c mem⟩
  · intro good
    have fits : ∀ c ∈ cs, c.Fits := fun c mem => (good c mem).1
    refine ⟨fun w mem => ?_, fun i => commitSections_outside commit,
      fun c mem => (commitSections_stored layout fits commit c mem).1,
      ⟨_, parses fits, maps.2 fun c mem => (good c mem).2⟩⟩
    obtain mem | ⟨c, mem, sect, lower, upper⟩ := bounds w mem
    · exact absurd mem not_mem_nil
    · have room : c.image.length + 5 ≤ c.sect.size := fits c mem
      rw [sect]
      omega

def oneEntry (name : String) (offset size : ℕ) (value : List UInt8) : Cached :=
  ⟨⟨name, offset, size, false⟩, some ⟨[97], value⟩ :: List.replicate 499 none⟩

theorem nvramCommit_roundTrip_small :
    (nvramCommit MtkNvram.crc32 [oneEntry "test1" 0 16 [98]] (fun _ => 7) (fun _ => 9)).1 = true ∧
    RoundTrip MtkNvram.crc32 16 (fun _ => []) [oneEntry "test1" 0 16 [98]] (fun _ => 9)
      (nvramCommit MtkNvram.crc32 [oneEntry "test1" 0 16 [98]] (fun _ => 7) (fun _ => 9)).2.1
      (nvramCommit MtkNvram.crc32 [oneEntry "test1" 0 16 [98]] (fun _ => 7) (fun _ => 9)).2.2 := by
  have ok : (nvramCommit MtkNvram.crc32 [oneEntry "test1" 0 16 [98]] (fun _ => 7) (fun _ => 9)).1 = true := by
    decide +kernel
  have entries : (oneEntry "test1" 0 16 [98]).entries = [⟨[97], [98]⟩] := by
    simp only [oneEntry, Cached.entries, reduceOption_cons_of_some, reduceOption_replicate_none]
  have parts (x : Bool × Buffer × (ℕ → UInt8)) (ok : x.1 = true) : x = (true, x.2.1, x.2.2) := Prod.ext ok rfl
  refine ⟨ok, (nvramCommit_roundTrip_iff ⟨by decide, by simp, by decide⟩ ?_ ?_ (parts _ ok)).2 ?_⟩
  · simpa [entries] using ⟨⟨97, [], rfl, by decide, by decide⟩, by decide, by decide, by decide⟩
  · simp only [mem_singleton, forall_eq, oneEntry, length_cons, length_replicate]
  · simp only [mem_singleton, forall_eq, Cached.Fits, Cached.Fresh, Cached.image, entries]
    exact ⟨by decide, fun e mem => absurd mem not_mem_nil⟩

/-- A value that does not end in its section is accepted, and is parsed with the checksum of the next section. -/
theorem nvramCommit_overrun :
    (nvramCommit MtkNvram.crc32 [oneEntry "test1" 0 8 [98, 99, 100, 101], oneEntry "test2" 8 16 []]
      (fun _ => 0) (fun _ => 0)).1 = true ∧
    (parseSections 24 (fun _ => []) [⟨"test1", 0, 8, false⟩, ⟨"test2", 8, 16, false⟩]
      (nvramCommit MtkNvram.crc32 [oneEntry "test1" 0 8 [98, 99, 100, 101], oneEntry "test2" 8 16 []]
        (fun _ => 0) (fun _ => 0)).2.2).map (fun ds => ds.map (·.get [97])) =
      some [some [98, 99, 19, 224, 220, 43, 97, 61], some []] := by
  decide +kernel

end OpenWifi.MtkNvram
