import OpenWifi.Lib.Memory
import Mathlib.Tactic.Ring

/-!
# Writing nvram sections and reading them back

`nvram_commit` writes the cached entries of every section to the cache file; `nvram_parse` reads the sections of the
file.  A commit may write as far as four bytes behind a section.
-/

namespace OpenWifi.MtkNvram

open List Memory

/-! ## Entries and sections -/

/-- `entry_t` with a name. -/
structure Entry where
  name : List UInt8
  value : List UInt8
deriving DecidableEq

/-- What `sprintf` writes for an entry. -/
def Entry.bytes (e : Entry) : List UInt8 := e.name ++ 61 :: (e.value ++ [0])

/-- `layout_t`. -/
structure Section where
  name : String
  offset : ℕ
  size : ℕ
  readOnly : Bool
deriving DecidableEq

/-- `section_t`; an entry without a name is `none`. -/
structure Cached where
  sect : Section
  cache : List (Option Entry)

namespace Cached

def entries (c : Cached) : List Entry := c.cache.reduceOption

/-- `_nvram_buf_get`, for a section. -/
def get (c : Cached) (key : List UInt8) : Option (List UInt8) := (c.entries.find? (·.name = key)).map (·.value)

def image (c : Cached) : List UInt8 := c.entries.flatMap Entry.bytes

end Cached

/-! ## `nvram_commit` -/

structure Buffer where
  bytes : ℕ → UInt8
  log : List (Section × ℕ × ℕ)

def Buffer.write (b : Buffer) (s : Section) (p : ℕ) (chunk : List UInt8) : Buffer :=
  ⟨store b.bytes p chunk, (s, p, p + chunk.length) :: b.log⟩

def Buffer.writeEntries (b : Buffer) (s : Section) (p q : ℕ) : List Entry → Option (Buffer × ℕ)
  | [] => some (b, p)
  | e :: es => if q ≤ p + e.bytes.length then none else (b.write s p e.bytes).writeEntries s (p + e.bytes.length) q es

def wordBytes (w : UInt32) : List UInt8 := [w.toUInt8, (w >>> 8).toUInt8, (w >>> 16).toUInt8, (w >>> 24).toUInt8]

/-- An entry of `crc_table`, computed from the polynomial of the table. -/
def crcTable (n : UInt8) : UInt32 :=
  (fun c : UInt32 => if c &&& 1 = 1 then (c >>> 1) ^^^ 0xedb88320 else c >>> 1)^[8] n.toUInt32

/-- `crc32`, called with 0. -/
def crc32 (buf : List UInt8) : UInt32 :=
  ~~~(buf.foldl (fun crc byte => crcTable (crc.toUInt8 ^^^ byte) ^^^ (crc >>> 8)) (~~~0))

/-- `size-4`, in 32 bits. -/
def Section.crcLength (s : Section) : ℕ := (s.size + (2 ^ 32 - 4)) % 2 ^ 32

section Code

variable (crc32 : List UInt8 → UInt32)

/-- What the loop over the sections does before `fwrite`. -/
def Buffer.writeSection (b : Buffer) (c : Cached) : Option Buffer := do
  let s := c.sect
  let (b, p) ← b.writeEntries s (s.offset + 4) (s.offset + 4 + s.size) c.entries
  let b := b.write s p [0]
  return b.write s s.offset (wordBytes (crc32 (slice b.bytes (s.offset + 4) s.crcLength)))

/-- The loop of `nvram_commit` over the sections.  An error leaves the sections before in the file. -/
def commitSections : List Cached → Buffer → (ℕ → UInt8) → Bool × Buffer × (ℕ → UInt8)
  | [], b, file => (true, b, file)
  | c :: cs, b, file =>
    match b.writeSection crc32 c with
    | none => (false, b, file)
    | some b => commitSections cs b (store file c.sect.offset (slice b.bytes c.sect.offset c.sect.size))

/-- `nvram_commit`, with what the allocated memory holds. -/
def nvramCommit (cs : List Cached) (memory file : ℕ → UInt8) : Bool × Buffer × (ℕ → UInt8) :=
  commitSections crc32 cs ⟨memory, []⟩ file

end Code

def scan (data : ℕ → UInt8) (len p : ℕ) (stop : UInt8 → Bool) : Option (List UInt8) :=
  let text := (slice data p (len - p)).takeWhile fun c => !stop c
  if p + text.length < len then some text else none

/-- The loop over a section, for at most so many more entries.  `char` is signed. -/
def parseEntries (len fin : ℕ) : ℕ → (ℕ → UInt8) → ℕ → Option ((ℕ → UInt8) × List Entry)
  | 0, data, _ => some (data, [])
  | j + 1, data, p =>
    if fin ≤ p ∨ data p < 32 ∨ 128 ≤ data p then some (data, [])
    else do
      let name ← scan data len p fun c => c = 0 || c = 61
      let q := p + name.length
      if data q = 0 then return (data, [])
      let value ← scan data len (q + 1) fun c => c = 0
      let (data, es) ← parseEntries len fin j (store data q [0]) (q + 1 + value.length + 1)
      return (data, ⟨name, value⟩ :: es)

/-- The loop over the sections; `fresh` is what the memory of a new cache holds, which is not cleared. -/
def parseSections (len : ℕ) (fresh : Section → List (Option Entry)) : List Section → (ℕ → UInt8) → Option (List Cached)
  | [], _ => some []
  | s :: ss, data => do
    let (data, es) ← parseEntries len (s.offset + s.size) 500 data (s.offset + 4)
    let rest ← parseSections len fresh ss data
    return ⟨s, es.map some ++ (fresh s).drop es.length⟩ :: rest

/-! ## The bytes of a section -/

@[simp] theorem length_wordBytes (w : UInt32) : (wordBytes w).length = 4 := rfl

variable {crc32 : List UInt8 → UInt32} {b b' : Buffer} {c : Cached} {cs : List Cached} {s : Section} {p q len : ℕ}

section

variable {es : List Entry} (written : b.writeEntries s p q es = some (b', q'))
include written

theorem Buffer.writeEntries_bytes :
    b'.bytes = store b.bytes p (es.flatMap Entry.bytes) ∧ q' = p + (es.flatMap Entry.bytes).length ∧
      (p < q → q' < q) := by
  induction es generalizing b p with
  | nil =>
    cases written
    exact ⟨by funext i; simp [store], rfl, id⟩
  | cons e es ih =>
    rw [writeEntries] at written
    split at written
    · cases written
    case isFalse room =>
      obtain ⟨bytes, stop, below⟩ := ih written
      rw [flatMap_cons, length_append, ← Nat.add_assoc, ← store_store]
      exact ⟨bytes, stop, fun _ => below (by omega)⟩

theorem Buffer.writeEntries_log : ∀ w, w ∈ b'.log → w ∈ b.log ∨ w.1 = s ∧ p ≤ w.2.1 ∧ w.2.2 ≤ q' := by
  induction es generalizing b p with
  | nil =>
    cases written
    exact fun w mem => .inl mem
  | cons e es ih =>
    rw [writeEntries] at written
    split at written
    · cases written
    case isFalse room =>
      intro w mem
      have stop := (writeEntries_bytes written).2.1
      rcases ih written w mem with mem | ⟨sect, lower, upper⟩
      · rcases mem_cons.1 mem with rfl | mem
        · exact .inr ⟨rfl, Nat.le_refl p, by show p + _ ≤ q'; omega⟩
        · exact .inl mem
      · exact .inr ⟨sect, by omega, upper⟩

theorem Buffer.writeEntries_log_mono : b.log ⊆ b'.log := by
  induction es generalizing b p with
  | nil =>
    cases written
    exact fun w mem => mem
  | cons e es ih =>
    rw [writeEntries] at written
    split at written
    · cases written
    · exact fun w mem => ih written (mem_cons_of_mem _ mem)

end

def Cached.chunk (crc32 : List UInt8 → UInt32) (c : Cached) (memory : ℕ → UInt8) : List UInt8 :=
  wordBytes (crc32 (slice (store memory (c.sect.offset + 4) (c.image ++ [0])) (c.sect.offset + 4) c.sect.crcLength)) ++
    (c.image ++ [0])

theorem Cached.length_chunk (c : Cached) (memory : ℕ → UInt8) : (c.chunk crc32 memory).length = 5 + c.image.length := by
  simp [chunk]
  omega

theorem Buffer.writeSection_eq_some (written : b.writeSection crc32 c = some b') :
    b'.bytes = store b.bytes c.sect.offset (c.chunk crc32 b.bytes) ∧ (0 < c.sect.size → c.image.length < c.sect.size) ∧
    (c.sect, c.sect.offset + 4 + c.image.length, c.sect.offset + 5 + c.image.length) ∈ b'.log ∧ b.log ⊆ b'.log ∧
    ∀ w ∈ b'.log, w ∈ b.log ∨ w.1 = c.sect ∧ c.sect.offset ≤ w.2.1 ∧ w.2.2 ≤ c.sect.offset + 5 + c.image.length := by
  obtain ⟨⟨b₁, p⟩, entries, last⟩ := Option.bind_eq_some_iff.1 written
  obtain ⟨bytes, rfl, below⟩ := writeEntries_bytes entries
  have image : c.entries.flatMap Entry.bytes = c.image := rfl
  rw [image] at bytes below
  cases last
  have ended : (b₁.write c.sect (c.sect.offset + 4 + c.image.length) [0]).bytes =
      store b.bytes (c.sect.offset + 4) (c.image ++ [0]) := by
    rw [← store_store, ← bytes]
    rfl
  refine ⟨?_, fun positive => by have := below (by omega); omega, ?_, ?_, ?_⟩
  · show store (b₁.write c.sect (c.sect.offset + 4 + c.image.length) [0]).bytes _ (wordBytes (crc32 (slice
      (b₁.write c.sect (c.sect.offset + 4 + c.image.length) [0]).bytes _ _))) = _
    rw [ended]
    exact store_before _ _ (wordBytes _) _
  · refine mem_cons_of_mem _ (mem_cons.2 (.inl ?_))
    rw [show c.sect.offset + 5 + c.image.length = c.sect.offset + 4 + c.image.length + 1 by omega]
    rfl
  · exact fun w mem => mem_cons_of_mem _ (mem_cons_of_mem _ (writeEntries_log_mono entries mem))
  · intro w mem
    rcases mem_cons.1 mem with rfl | mem
    · exact .inr ⟨rfl, Nat.le_refl _, by simp; omega⟩
    rcases mem_cons.1 mem with rfl | mem
    · exact .inr ⟨rfl, by show c.sect.offset ≤ c.sect.offset + 4 + _; omega,
        by show _ + 4 + c.image.length + 1 ≤ _; omega⟩
    rcases writeEntries_log entries w mem with mem | ⟨sect, lower, upper⟩
    · exact .inl mem
    · exact .inr ⟨sect, by omega, by rw [image] at upper; omega⟩

end OpenWifi.MtkNvram
