import Mathlib.Data.List.Pairwise
import OpenWifi.Lib.Steps
import OpenWifi.MtkNvram.RoundTrip

/-!
# Read-only sections

`nvram_set` and `nvram_del` refuse a section that is read-only, but a change of another section commits all of them.
The bytes behind the strings of a section come from the allocated memory.
-/

namespace OpenWifi.MtkNvram

open List Option Memory

def hasName (key : List UInt8) (slot : Option Entry) : Bool := slot.any fun e => e.name = key

/-- `_nvram_buf_del`, for a section that may be changed. -/
def delEntry (key : List UInt8) (cache : List (Option Entry)) : Option (List (Option Entry)) :=
  (cache.findIdx? (hasName key)).map fun i => cache.set i none

/-- `_nvram_buf_set`, for a section that may be changed. -/
def setEntry (key value : List UInt8) (cache : List (Option Entry)) : Option (List (Option Entry)) :=
  ((cache.findIdx? (hasName key)).or (cache.findIdx? Option.isNone)).map fun i => cache.set i (some ⟨key, value⟩)

def editSection (name : String) (edit : List (Option Entry) → Option (List (Option Entry))) :
    List Cached → Option (List Cached)
  | [] => none
  | c :: cs =>
    if c.sect.name ≠ name then (editSection name edit cs).map (c :: ·)
    else if c.sect.readOnly then none
    else (edit c.cache).map fun cache => ⟨c.sect, cache⟩ :: cs

inductive Call
  | set (name : String) (key value : List UInt8)
  | del (name : String) (key : List UInt8)

/-- `_nvram_buf_set` and `_nvram_buf_del`. -/
def Call.edit : Call → List Cached → Option (List Cached)
  | .set name key value => editSection name (setEntry key value)
  | .del name key => editSection name (delEntry key)

/-- The cache file and `nvramcache`. -/
structure Nvram where
  file : ℕ → UInt8
  caches : List Cached

variable {crc32 : List UInt8 → UInt32}

/-- `nvram_set` and `nvram_del`; the memory is none when it cannot be allocated. -/
def step (crc32 : List UInt8 → UInt32) (n : Nvram) (e : Call × Option (ℕ → UInt8)) : Option Nvram :=
  some <| match e.1.edit n.caches with
    | none => n
    | some cs => ⟨e.2.elim n.file fun memory => (nvramCommit crc32 cs memory n.file).2.2, cs⟩

/-- The file has the section as a commit stores it: the checksum, the entries and a zero, and behind them what is in the
allocated memory. -/
structure Cached.Current (crc32 : List UInt8 → UInt32) (c : Cached) (memory file : ℕ → UInt8) : Prop where
  checksum : slice file c.sect.offset 4 = wordBytes (crc32 (slice file (c.sect.offset + 4) (c.sect.size - 4)))
  entries : ∀ i < c.sect.size - 4, i < c.image.length + 1 →
    (c.image ++ [0])[i]? = some (file (c.sect.offset + 4 + i))
  behind : ∀ i < c.sect.size - 4, c.image.length + 1 ≤ i →
    memory (c.sect.offset + 4 + i) = file (c.sect.offset + 4 + i)

/-- A call is refused, or cannot allocate, or each read-only section that is written has this already.  Nothing is
written from the first section on whose entries are too long. -/
def Harmless (crc32 : List UInt8 → UInt32) (n : Nvram) (e : Call × Option (ℕ → UInt8)) : Prop :=
  ∀ cs, e.1.edit n.caches = some cs → ∀ memory, e.2 = some memory → ∀ before c after, cs = before ++ c :: after →
    (∀ d ∈ c :: before, d.image.length < d.sect.size) → c.sect.readOnly → c.Current crc32 memory n.file

theorem editSection_eq_some {name : String} {edit : List (Option Entry) → Option (List (Option Entry))}
    {cs cs' : List Cached} (edited : editSection name edit cs = some cs') : cs'.map (·.sect) = cs.map (·.sect) := by
  induction cs generalizing cs' with
  | nil => cases edited
  | cons c cs ih =>
    rw [editSection] at edited
    split at edited
    · obtain ⟨rest, tail, rfl⟩ := map_eq_some_iff.1 edited
      exact congrArg (c.sect :: ·) (ih tail)
    · split at edited
      · cases edited
      · obtain ⟨cache, -, rfl⟩ := map_eq_some_iff.1 edited
        rfl

theorem Call.edit_eq_some {call : Call} {cs cs' : List Cached} (edited : call.edit cs = some cs') :
    cs'.map (·.sect) = cs.map (·.sect) := by
  cases call with
  | set | del => exact editSection_eq_some edited

theorem Layout.eq_of_mem {len i : ℕ} {ss : List Section} {s t : Section} (layout : Layout len ss) (hs : s ∈ ss)
    (ht : t ∈ ss) (inS : s.offset ≤ i ∧ i < s.offset + s.size)
    (inT : t.offset ≤ i ∧ i < t.offset + t.size) : s = t := by
  have symmetric : Std.Symm fun s t : Section => s.offset + s.size ≤ t.offset ∨ t.offset + t.size ≤ s.offset :=
    ⟨fun _ _ => Or.symm⟩
  by_contra other
  have gap := layout.disjoint.forall hs ht other
  omega

variable {c : Cached} {memory memory' : ℕ → UInt8}

theorem Cached.store_chunk_congr (lower : 4 ≤ c.sect.size) (upper : c.sect.size < 2 ^ 32)
    (same : ∀ i, c.sect.offset + 4 ≤ i → i < c.sect.offset + c.sect.size → memory i = memory' i) {i : ℕ}
    (start : c.sect.offset ≤ i) (stop : i < c.sect.offset + c.sect.size) :
    store memory c.sect.offset (c.chunk crc32 memory) i = store memory' c.sect.offset (c.chunk crc32 memory') i := by
  have words := c.sect.crcLength_eq lower upper
  have chunk : c.chunk crc32 memory = c.chunk crc32 memory' := by
    unfold Cached.chunk
    rw [slice_congr fun i lower below => store_congr (same i lower (by omega))]
  rw [chunk]
  rcases Nat.lt_or_ge i (c.sect.offset + 4) with front | back
  · refine some.inj ?_
    have length : (c.chunk crc32 memory').length = _ := c.length_chunk memory'
    rw [store_inside start (by omega), store_inside start (by omega)]
  · exact store_congr (same i back stop)

section

variable {file : ℕ → UInt8} (current : c.Current crc32 memory file) {i : ℕ}
include current

theorem Cached.Current.store_image (start : c.sect.offset + 4 ≤ i) (stop : i < c.sect.offset + c.sect.size) :
    store memory (c.sect.offset + 4) (c.image ++ [0]) i = file i := by
  obtain ⟨j, rfl⟩ := Nat.exists_eq_add_of_le start
  have length : (c.image ++ [0]).length = c.image.length + 1 := by simp
  rcases Nat.lt_or_ge j (c.image.length + 1) with inside | behind
  · refine some.inj ?_
    rw [store_inside start (by omega), Nat.add_sub_cancel_left]
    exact current.entries j (by omega) inside
  · rw [store_outside (by omega)]
    exact current.behind j (by omega) behind

theorem Cached.Current.store_chunk (lower : 4 ≤ c.sect.size) (upper : c.sect.size < 2 ^ 32)
    (start : c.sect.offset ≤ i) (stop : i < c.sect.offset + c.sect.size) :
    store memory c.sect.offset (c.chunk crc32 memory) i = file i := by
  have chunk : c.chunk crc32 memory = slice file c.sect.offset 4 ++ (c.image ++ [0]) := by
    rw [Cached.chunk, c.sect.crcLength_eq lower upper, current.checksum,
      slice_congr fun j lower below => current.store_image lower (by omega)]
  have four : (slice file c.sect.offset 4).length = 4 := length_slice ..
  rw [chunk, ← store_before, four]
  rcases Nat.lt_or_ge i (c.sect.offset + 4) with front | back
  · exact store_slice start front
  · rw [store_outside (by omega)]
    exact current.store_image back stop

end

theorem commitSections_kept {len : ℕ} {cs : List Cached} (layout : Layout len (cs.map (·.sect)))
    (sizes : ∀ c ∈ cs, 4 ≤ c.sect.size) {b : Buffer} {file : ℕ → UInt8}
    (fresh : ∀ c ∈ cs, ∀ i, c.sect.offset + 4 ≤ i → i < c.sect.offset + c.sect.size → b.bytes i = memory i) {i : ℕ}
    (kept : ∀ before c after, cs = before ++ c :: after → (∀ d ∈ c :: before, d.image.length < d.sect.size) →
      c.sect.offset ≤ i → i < c.sect.offset + c.sect.size →
      store memory c.sect.offset (c.chunk crc32 memory) i = file i) :
    (commitSections crc32 cs b file).2.2 i = file i := by
  induction cs generalizing b file with
  | nil => rfl
  | cons c cs ih =>
    rw [commitSections]
    split
    · rfl
    case h_2 b₁ written =>
      obtain ⟨rest, apart⟩ := layout.tail
      have size := sizes c mem_cons_self
      have inside := layout.inside c.sect mem_cons_self
      have small := layout.small
      obtain ⟨bytes, short, -⟩ := Buffer.writeSection_eq_some written
      have room := short (by omega)
      have stays : store file c.sect.offset (slice b₁.bytes c.sect.offset c.sect.size) i = file i := by
        by_cases within : c.sect.offset ≤ i ∧ i < c.sect.offset + c.sect.size
        · rw [store_slice within.1 within.2, bytes,
            Cached.store_chunk_congr size (by omega) (fresh c mem_cons_self) within.1 within.2]
          exact kept [] c cs rfl (by simpa using room) within.1 within.2
        · exact store_outside (by simp; omega)
      refine (ih rest (fun d mem => sizes d (mem_cons_of_mem _ mem)) (fun d mem j lower below => ?_)
        fun before d after eq fit lower below => ?_).trans stays
      -- the overrun of a section ends where the strings of the next one start
      · have gap := apart d mem
        have length : (c.chunk crc32 b.bytes).length = _ := c.length_chunk b.bytes
        rw [bytes, store_outside (by omega)]
        exact fresh d (mem_cons_of_mem _ mem) j lower below
      · rw [stays]
        refine kept (c :: before) d after (congrArg (c :: ·) eq) (fun x mem => ?_) lower below
        rcases mem_cons.1 mem with rfl | mem
        · exact fit x mem_cons_self
        · rcases mem_cons.1 mem with rfl | mem
          · exact room
          · exact fit x (mem_cons_of_mem _ mem)

/-- If calls are refused, or find every read-only section that is written as it is stored, no byte of a read-only
section changes. -/
theorem run_readOnly_unchanged {len : ℕ} {n n' : Nvram} (layout : Layout len (n.caches.map (·.sect)))
    (sizes : ∀ c ∈ n.caches, 4 ≤ c.sect.size) {es : List (Call × Option (ℕ → UInt8))}
    (along : Along (step crc32) (Harmless crc32) n es) (run : runFrom (step crc32) n es = some n') :
    ∀ c ∈ n.caches, c.sect.readOnly → ∀ i, c.sect.offset ≤ i → i < c.sect.offset + c.sect.size →
      n'.file i = n.file i := by
  intro c mem readOnly i lower below
  have kept (m : Nvram) (e : Call × Option (ℕ → UInt8)) (m' : Nvram)
      (inv : m.caches.map (·.sect) = n.caches.map (·.sect) ∧ m.file i = n.file i) (harmless : Harmless crc32 m e)
      (next : step crc32 m e = some m') : m'.caches.map (·.sect) = n.caches.map (·.sect) ∧ m'.file i = n.file i := by
    cases next
    split
    · exact inv
    case h_2 cs edited =>
      have sects := Call.edit_eq_some edited
      refine ⟨sects.trans inv.1, ?_⟩
      obtain ⟨call, _ | memory⟩ := e
      · exact inv.2
      have layout' : Layout len (cs.map (·.sect)) := by rwa [sects, inv.1]
      have known {d : Cached} (mem' : d ∈ cs) : d.sect ∈ n.caches.map (·.sect) := by
        rw [← inv.1, ← sects]
        exact mem_map_of_mem mem'
      have sizes' : ∀ d ∈ cs, 4 ≤ d.sect.size := by
        intro d mem'
        obtain ⟨d', mem'', eq⟩ := mem_map.1 (known mem')
        rw [← eq]
        exact sizes d' mem''
      refine (commitSections_kept layout' sizes' (fun _ _ _ _ _ => rfl)
        fun before d after eq fit lower' below' => ?_).trans inv.2
      have mem' : d ∈ cs := by simp [eq]
      have sect : d.sect = c.sect := layout.eq_of_mem (known mem') (mem_map_of_mem mem) ⟨lower', below'⟩ ⟨lower, below⟩
      have readOnly' : d.sect.readOnly := by rw [sect]; exact readOnly
      have small := layout.small
      have inside := layout.inside d.sect (known mem')
      exact (harmless cs edited memory rfl before d after eq fit readOnly').store_chunk (sizes' d mem') (by omega)
        lower' below'
  exact (along.invariant kept ⟨rfl, rfl⟩ run).2

def written : Nvram where
  file := store (fun _ => 7) 0 (wordBytes (MtkNvram.crc32 [97, 61, 98, 0, 0, 7, 7, 7]) ++ [97, 61, 98, 0, 0])
  caches := [⟨⟨"readonly", 0, 12, true⟩, [some ⟨[97], [98]⟩, none]⟩, ⟨⟨"test1", 12, 16, false⟩, [none, none]⟩]

def setAndDelete : List (Call × Option (ℕ → UInt8)) :=
  [(.set "test1" [99] [100], some fun _ => 7), (.del "readonly" [97], some fun _ => 8)]

theorem run_readOnly_unchanged_written :
    ∃ n, runFrom (step MtkNvram.crc32) written setAndDelete = some n ∧ n.file 11 = written.file 11 := by
  have layout : Layout 28 (written.caches.map (·.sect)) := ⟨by decide, by decide, by decide⟩
  have along : Along (step MtkNvram.crc32) (Harmless MtkNvram.crc32) written setAndDelete := by
    refine ⟨?_, fun n first => ⟨?_, fun _ _ => trivial⟩⟩
    · intro cs edited memory given before c after split _ readOnly
      cases given
      cases edited
      rcases before with _ | ⟨first, _ | ⟨second, rest⟩⟩
      · obtain ⟨rfl, -⟩ := List.cons.inj split
        exact ⟨by decide +kernel, by decide +kernel, by decide +kernel⟩
      · obtain ⟨rfl, -⟩ := List.cons.inj (List.cons.inj split).2
        cases readOnly
      · simp at split
    · intro cs edited
      cases first
      cases edited
  have runs (n : Nvram) (e e' : Call × Option (ℕ → UInt8)) :
      ∃ n', runFrom (step MtkNvram.crc32) n [e, e'] = some n' := ⟨_, rfl⟩
  obtain ⟨n, run⟩ := runs written (.set "test1" [99] [100], some fun _ => 7) (.del "readonly" [97], some fun _ => 8)
  exact ⟨n, run, run_readOnly_unchanged layout (by decide) along run _ mem_cons_self rfl 11 (by decide) (by decide)⟩

/-- Setting an entry of another section rewrites a read-only section, here one that was never written. -/
theorem readOnly_rewritten :
    ((parseSections 24 (fun _ => List.replicate 500 none) [⟨"uboot", 0, 8, true⟩, ⟨"test1", 8, 16, false⟩]
        fun _ => 255).bind fun cs =>
      (runFrom (step MtkNvram.crc32) ⟨fun _ => 255, cs⟩ [(.set "test1" [97] [98], some fun _ => 7)]).map
        fun n => slice n.file 0 8) = some [253, 202, 46, 245, 0, 7, 7, 7] := by
  decide +kernel

end OpenWifi.MtkNvram
