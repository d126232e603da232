import OpenWifi.Lib.Text
import Mathlib.Tactic.Ring

/-!
# Quota usage files

`saveUsageToFile` writes the time of the backup and then a line for each address and its counter; `loadUsageFromFile`
takes every word that `inet_aton` accepts for an address and the word behind it for its counter.
-/

namespace OpenWifi.Bwctl

open List Option

/-- `ip_bw`.  The address is the number whose bytes, the highest first, are its four parts. -/
structure IpBw where
  ip : UInt32
  bw : UInt64
  deriving DecidableEq

/-! ## Addresses in text -/

def addressOf : List ℕ → Option ℕ
  | [a] => if a < 2 ^ 32 then some a else none
  | [a, b] => if a < 256 ∧ b < 2 ^ 24 then some (a * 2 ^ 24 + b) else none
  | [a, b, c] => if a < 256 ∧ b < 256 ∧ c < 2 ^ 16 then some (a * 2 ^ 24 + b * 2 ^ 16 + c) else none
  | [a, b, c, d] =>
    if a < 256 ∧ b < 256 ∧ c < 256 ∧ d < 256 then some (a * 2 ^ 24 + b * 2 ^ 16 + c * 2 ^ 8 + d) else none
  | _ => none

/-- `inet_aton`: numbers between dots, each one decimal, octal or hexadecimal. -/
def inetAton (text : List Char) : Option UInt32 :=
  (((text.splitOn '.').mapM constant).bind addressOf).map UInt32.ofNat

variable (ip : UInt32)

/-- `inet_ntoa`. -/
def inetNtoa : List Char :=
  decimal (ip.toNat / 2 ^ 24) ++ '.' :: (decimal (ip.toNat / 2 ^ 16 % 256) ++ '.' ::
    (decimal (ip.toNat / 2 ^ 8 % 256) ++ '.' :: decimal (ip.toNat % 256)))

variable (n : ℕ)

theorem dot_notMem_decimal : '.' ∉ decimal n := fun mem =>
  absurd (isDigit_of_mem_decimal mem) (by decide)

theorem inetAton_inetNtoa : inetAton (inetNtoa ip) = some ip := by
  have bound := ip.toNat_lt
  have number : ip.toNat / 2 ^ 24 * 2 ^ 24 + ip.toNat / 2 ^ 16 % 256 * 2 ^ 16 + ip.toNat / 2 ^ 8 % 256 * 2 ^ 8 +
      ip.toNat % 256 = ip.toNat := by omega
  have bytes : ip.toNat / 2 ^ 24 < 256 ∧ ip.toNat / 2 ^ 16 % 256 < 256 ∧ ip.toNat / 2 ^ 8 % 256 < 256 ∧
      ip.toNat % 256 < 256 := by omega
  rw [inetAton, inetNtoa, splitOn_append_cons_self_of_not_mem (dot_notMem_decimal _),
    splitOn_append_cons_self_of_not_mem (dot_notMem_decimal _),
    splitOn_append_cons_self_of_not_mem (dot_notMem_decimal _),
    splitOn_eq_singleton (dot_notMem_decimal _)]
  simp only [mapM_cons, mapM_nil, constant_decimal, Option.pure_def, Option.bind_eq_bind, Option.bind_some,
    addressOf, if_pos bytes, number, map_some, UInt32.ofNat_toNat]

theorem inetAton_decimal : inetAton (decimal n) = if n < 2 ^ 32 then some (UInt32.ofNat n) else none := by
  rw [inetAton, splitOn_eq_singleton (dot_notMem_decimal n)]
  simp only [mapM_cons, mapM_nil, constant_decimal, Option.pure_def, Option.bind_eq_bind, Option.bind_some, addressOf]
  split <;> rfl

theorem inetAton_negative : inetAton ('-' :: decimal n) = none := by
  have part : ('-' :: decimal n).splitOn '.' = ['-' :: decimal n] :=
    splitOn_eq_singleton (by simp [dot_notMem_decimal n])
  have number : constant ('-' :: decimal n) = none := by
    simp [constant, numeral, readDigits, digitValue]
  simp [inetAton, part, number]

variable (now : ℤ)

theorem inetAton_showInt : inetAton (showInt now) = none ↔ now < 0 ∨ 2 ^ 32 ≤ now := by
  cases now with
  | ofNat n =>
    rw [showInt, inetAton_decimal, ite_eq_right_iff, Int.ofNat_eq_natCast]
    constructor
    · intro none
      by_contra small
      cases none (by omega)
    · intro large small
      omega
  | negSucc n =>
    rw [showInt, inetAton_negative]
    simp [Int.negSucc_lt_zero]

/-- The conversions `%-15s` and `%-15ld`. -/
def padded (text : List Char) : List Char := text ++ List.replicate (15 - text.length) ' '

/-- `save_usage_to_file`: the text of the file. -/
def saveUsageToFile (data : List IpBw) : List Char :=
  padded (showInt now) ++ '\n' :: data.flatMap fun next =>
    padded (inetNtoa next.ip) ++ '\t' :: (decimal next.bw.toNat ++ ['\n'])

def whitespace (c : Char) : Bool := c ∈ ['\n', '\r', '\t', ' ']

/-- `split_on_separators`; a negative number of pieces stands for all of them. -/
def splitOnSeparators (separator : Char → Bool) (maxPieces : ℤ) (remainder : Bool) (line : List Char) :
    List (List Char) :=
  splitPieces separator remainder (if maxPieces < 0 then line.countP separator + 1 else maxPieces.toNat) line

/-- A scanned number cut to a `long` or `long long` of 64 bits. -/
def scanLong (text : List Char) : Option ℤ :=
  (scanInt text).map fun r => max (-2 ^ 63) (min r.1 (2 ^ 63 - 1))

/-- The loop of `load_usage_from_file` over the words that are left. -/
def loadParts (numDataParts : ℕ) : List (List Char) → ℤ → List IpBw → Option (List IpBw × ℤ)
  | [], lastBackup, data => some (data, lastBackup)
  | part :: parts, lastBackup, data =>
    match inetAton part with
    | none => loadParts numDataParts parts ((scanLong part).getD lastBackup) data
    | some ip =>
      if data.length < numDataParts then
        match parts with
        | [] => none
        | count :: parts =>
          match scanLong count with
          | none => loadParts numDataParts parts lastBackup data
          | some bw => loadParts numDataParts parts lastBackup (data ++ [⟨ip, UInt64.ofInt bw⟩])
      else loadParts numDataParts parts lastBackup data

variable (file : List Char)

def fileWords : List (List Char) :=
  splitOnSeparators whitespace (-1) false (file.takeWhile (· ≠ '\x00'))

/-- `load_usage_from_file`: the list and the time of the backup. -/
def loadUsageFromFile : Option (List IpBw × ℤ) :=
  loadParts (fileWords file).length (fileWords file) 0 []

/-! ## The words of a written file -/

def entryWords (data : List IpBw) : List (List Char) :=
  data.flatMap fun next => [inetNtoa next.ip, decimal next.bw.toNat]

theorem whitespace_of_isDigit {c : Char} (h : c.isDigit) : whitespace c = false := by
  by_contra space
  simp only [whitespace, Bool.not_eq_false, decide_eq_true_eq, mem_cons, not_mem_nil, or_false] at space
  rcases space with rfl | rfl | rfl | rfl <;> exact absurd h (by decide)

def NumberText (text : List Char) : Prop := ∀ c ∈ text, c.isDigit ∨ c = '.' ∨ c = '-'

theorem numberText_decimal : NumberText (decimal n) := fun _ mem => .inl (isDigit_of_mem_decimal mem)

theorem numberText_inetNtoa : NumberText (inetNtoa ip) := by
  intro c mem
  simp only [inetNtoa, mem_append, mem_cons] at mem
  rcases mem with h | rfl | h | rfl | h | rfl | h
  all_goals first | exact .inl (isDigit_of_mem_decimal h) | exact .inr (.inl rfl)

theorem numberText_showInt (z : ℤ) : NumberText (showInt z) := by
  cases z with
  | ofNat n => exact numberText_decimal n
  | negSucc n =>
    intro c mem
    rcases mem_cons.1 mem with rfl | h
    · exact .inr (.inr rfl)
    · exact numberText_decimal _ c h

variable {text : List Char}

theorem NumberText.no_space (h : NumberText text) : ∀ c ∈ text, whitespace c = false := by
  intro c mem
  rcases h c mem with digit | rfl | rfl
  · exact whitespace_of_isDigit digit
  · decide
  · decide

theorem NumberText.ne_nul (h : NumberText text) : ∀ c ∈ text, c ≠ '\x00' := by
  rintro c mem rfl
  rcases h _ mem with digit | dot | sign
  · exact absurd digit (by decide)
  · exact absurd dot (by decide)
  · exact absurd sign (by decide)

theorem inetNtoa_ne_nil : inetNtoa ip ≠ [] := by
  simp [inetNtoa]

theorem showInt_ne_nil (z : ℤ) : showInt z ≠ [] := by
  cases z with
  | ofNat n => exact decimal_ne_nil n
  | negSucc n => simp [showInt]

theorem words_padded (some_char : text ≠ []) (h : NumberText text) {c : Char} (sep : whitespace c) (rest : List Char) :
    words whitespace (padded text ++ c :: rest) = text :: words whitespace rest := by
  rw [padded, append_assoc]
  have spaces : ∀ d ∈ List.replicate (15 - text.length) ' ', whitespace d := by
    intro d mem
    rw [eq_of_mem_replicate mem]
    decide
  cases gap : List.replicate (15 - text.length) ' ' with
  | nil => rw [nil_append, words_word some_char h.no_space sep]
  | cons d more =>
    rw [gap] at spaces
    rw [cons_append, words_word some_char h.no_space (spaces d (by simp)),
      words_gap (fun e mem => spaces e (by simp [mem])), words_cons sep]

theorem words_entries (data : List IpBw) : words whitespace (data.flatMap fun next =>
      padded (inetNtoa next.ip) ++ '\t' :: (decimal next.bw.toNat ++ ['\n'])) = entryWords data := by
  induction data with
  | nil => rw [flatMap_nil, words_nil]; rfl
  | cons next data ih =>
    rw [flatMap_cons, append_assoc, cons_append,
      words_padded (inetNtoa_ne_nil _) (numberText_inetNtoa _) (by decide), append_assoc, singleton_append,
      words_word (decimal_ne_nil _) (numberText_decimal _).no_space (by decide), ih]
    rfl

theorem saved_ne_nul (data : List IpBw) : ∀ c ∈ saveUsageToFile now data, c ≠ '\x00' := by
  have pad : ∀ text, NumberText text → ∀ c ∈ padded text, c ≠ '\x00' := by
    intro text h
    refine forall_mem_append.2 ⟨h.ne_nul, fun c gap => ?_⟩
    rw [eq_of_mem_replicate gap]
    decide
  intro c mem
  simp only [saveUsageToFile, mem_append, mem_cons, mem_flatMap, not_mem_nil, or_false] at mem
  rcases mem with h | rfl | ⟨next, -, h | rfl | h | rfl⟩
  · exact pad _ (numberText_showInt _) c h
  · decide
  · exact pad _ (numberText_inetNtoa _) c h
  · decide
  · exact (numberText_decimal _).ne_nul c h
  · decide

theorem fileWords_eq : fileWords file = words whitespace (file.takeWhile (· ≠ '\x00')) := by
  rw [fileWords, splitOnSeparators, if_pos (by decide), splitPieces_all]

theorem fileWords_saved (data : List IpBw) : fileWords (saveUsageToFile now data) = showInt now :: entryWords data := by
  have whole : (saveUsageToFile now data).takeWhile (· ≠ '\x00') = saveUsageToFile now data := by
    rw [takeWhile_eq_self_iff]
    intro c mem
    simpa using saved_ne_nul now data c mem
  rw [fileWords_eq, whole, saveUsageToFile, words_padded (showInt_ne_nil now) (numberText_showInt now) (by decide),
    words_entries]

theorem scanLong_decimal {n : ℕ} (h : n < 2 ^ 63) : scanLong (decimal n) = some (n : ℤ) := by
  have scan := scanInt_decimal n noDigit_nil
  rw [append_nil] at scan
  rw [scanLong, scan, map_some]
  congr 1
  omega

theorem scanLong_showInt {z : ℤ} (low : -2 ^ 63 ≤ z) (high : z < 2 ^ 63) : scanLong (showInt z) = some z := by
  rw [scanLong, scanInt_showInt, map_some]
  congr 1
  omega

theorem scanLong_inetNtoa : scanLong (inetNtoa ip) = some ((ip.toNat / 2 ^ 24 : ℕ) : ℤ) := by
  have bound := ip.toNat_lt
  rw [scanLong, inetNtoa, scanInt_decimal _ (by simp [NoDigit]), map_some]
  congr 1
  omega

theorem ofInt_toNat (x : UInt64) : UInt64.ofInt (x.toNat : ℤ) = x := by
  have small : ((x.toNat : ℤ) % 2 ^ 64).toNat = x.toNat := by
    have := x.toNat_lt
    omega
  rw [UInt64.ofInt, small, UInt64.ofNat_toNat]

variable {numDataParts : ℕ} {data : List IpBw}

theorem loadParts_entryWords (small : ∀ next ∈ data, next.bw.toNat < 2 ^ 63)
    (lastBackup : ℤ) (loaded : List IpBw) (room : loaded.length + data.length < numDataParts) :
    loadParts numDataParts (entryWords data) lastBackup loaded = some (loaded ++ data, lastBackup) := by
  induction data generalizing loaded with
  | nil => simp [entryWords, loadParts]
  | cons next data ih =>
    have step : entryWords (next :: data) = inetNtoa next.ip :: decimal next.bw.toNat :: entryWords data := rfl
    have count := scanLong_decimal (small next (by simp))
    rw [length_cons] at room
    rw [step, loadParts, inetAton_inetNtoa]
    dsimp only
    rw [if_pos (by omega), count]
    dsimp only
    rw [ih (fun e mem => small e (by simp [mem])) _ (by simp; omega)]
    rw [ofInt_toNat, append_assoc, singleton_append]

/-! ## The file as a whole -/

variable {parts : List (List Char)}

theorem loadParts_prefix {lastBackup : ℤ}
    {result : List IpBw × ℤ} (h : loadParts numDataParts parts lastBackup data = some result) : data <+: result.1 := by
  fun_induction loadParts numDataParts parts lastBackup data with
  | case1 lastBackup data => simp [← some.inj h]
  | case2 lastBackup data part parts no_address ih => exact ih h
  | case3 lastBackup data part ip address room => exact absurd h (by simp)
  | case4 lastBackup data part ip address room count parts no_number ih => exact ih h
  | case5 lastBackup data part ip address room count parts bw number ih => exact (prefix_append _ _).trans (ih h)
  | case6 lastBackup data part parts ip address no_room ih => exact ih h

/-- A bare number in front of the entries shifts them: each word that is read as a counter belongs to another entry,
and the list read is never the list written. -/
theorem loadParts_shifted {n : ℕ} (small : n < 2 ^ 32) (lastBackup : ℤ)
    (loaded : List IpBw) (room : loaded.length + data.length < numDataParts) {result : List IpBw × ℤ}
    (h : loadParts numDataParts (decimal n :: entryWords data) lastBackup loaded = some result) :
    result.1 ≠ loaded ++ data := by
  induction data generalizing n loaded with
  | nil =>
    rw [loadParts, inetAton_decimal, if_pos small] at h
    dsimp only [entryWords, flatMap_nil] at h
    rw [if_pos (by simpa using room)] at h
    exact absurd h (by simp)
  | cons next data ih =>
    have step : entryWords (next :: data) = inetNtoa next.ip :: decimal next.bw.toNat :: entryWords data := rfl
    rw [length_cons] at room
    rw [step, loadParts, inetAton_decimal, if_pos small] at h
    dsimp only at h
    rw [if_pos (by omega), scanLong_inetNtoa] at h
    dsimp only at h
    intro same
    -- the entry read first is kept, so it is the entry written first, and its counter is a byte
    obtain ⟨rest, kept⟩ := loadParts_prefix h
    rw [same, append_assoc, append_cancel_left_eq, singleton_append] at kept
    obtain ⟨first, -⟩ := cons_eq_cons.1 kept
    have byte : next.bw.toNat < 2 ^ 32 := by
      have bound := next.ip.toNat_lt
      rw [← first, UInt64.ofInt, UInt64.toNat_ofNat']
      omega
    rw [first] at h
    exact ih byte (loaded ++ [next]) (by simp; omega) h (by simp [same])

inductive Paired : List (List Char) → Prop
  | nil : Paired []
  | other {part : List Char} {parts : List (List Char)} (h : inetAton part = none) (rest : Paired parts) :
      Paired (part :: parts)
  | pair {part : List Char} {parts : List (List Char)} (count : List Char) (h : (inetAton part).isSome)
      (rest : Paired parts) : Paired (part :: count :: parts)

theorem paired_pair_iff {part count : List Char} {ip : UInt32}
    (address : inetAton part = some ip) : Paired parts ↔ Paired (part :: count :: parts) := by
  constructor
  · exact .pair count (by simp [address])
  · intro paired
    cases paired with
    | other h rest => simp [address] at h
    | pair count h rest => exact rest

theorem isSome_loadParts {lastBackup : ℤ} (room : 2 * data.length + parts.length ≤ numDataParts) :
    (loadParts numDataParts parts lastBackup data).isSome ↔ Paired parts := by
  fun_induction loadParts numDataParts parts lastBackup data with
  | case1 lastBackup data => simp [Paired.nil]
  | case2 lastBackup data part parts no_address ih =>
    rw [ih (by simp at room; omega)]
    constructor
    · exact .other no_address
    · intro paired
      cases paired with
      | other h rest => exact rest
      | pair count h rest => simp [no_address] at h
  | case3 lastBackup data part ip address room =>
    simp only [isSome_none, Bool.false_eq_true, false_iff]
    intro paired
    cases paired with
    | other h rest => simp [address] at h
  | case4 lastBackup data part ip address room count parts no_number ih =>
    rw [ih (by simp at *; omega)]
    exact paired_pair_iff address
  | case5 lastBackup data part ip address room count parts bw number ih =>
    rw [ih (by simp at *; omega)]
    exact paired_pair_iff address
  | case6 lastBackup data part parts ip address no_room ih => exact absurd room (by simp; omega)

/-- A file written at a time that is no address by itself is read back as it was written, and at any other time it is
not. -/
theorem usageFile_iff (file : List Char) {now : ℤ} {data : List IpBw} (low : -2 ^ 63 ≤ now) (high : now < 2 ^ 63)
    (small : ∀ next ∈ data, next.bw.toNat < 2 ^ 63) :
    (loadUsageFromFile (saveUsageToFile now data) = some (data, now) ↔ now < 0 ∨ 2 ^ 32 ≤ now) ∧
      ((loadUsageFromFile file).isSome ↔ Paired (fileWords file)) := by
  refine ⟨?_, isSome_loadParts (by simp)⟩
  have room : data.length < (showInt now :: entryWords data).length := by
    simp [entryWords, length_flatMap]
    omega
  rw [loadUsageFromFile, fileWords_saved, ← inetAton_showInt]
  constructor
  · intro back
    by_contra address
    obtain ⟨n, rfl⟩ : ∃ n : ℕ, now = n := by
      rw [inetAton_showInt] at address
      exact ⟨now.toNat, by omega⟩
    rw [inetAton_showInt] at address
    exact loadParts_shifted (by omega) 0 [] (by simpa using room) back rfl
  · intro time
    rw [loadParts, time]
    dsimp only
    rw [scanLong_showInt low high, getD_some, loadParts_entryWords small now [] (by simpa using room), nil_append]

/-- A time after 2106 is no address, and the address `0.0.0.0` is an entry like the others. -/
theorem usageFile_iff_late : loadUsageFromFile (saveUsageToFile 4294967296 [⟨0, 7⟩, ⟨0xc0a80101, 0⟩]) =
      some ([⟨0, 7⟩, ⟨0xc0a80101, 0⟩], 4294967296) :=
  (usageFile_iff [] (by decide) (by decide) (by decide)).1.2 (.inr (by decide))

/-- A file of the year 2023: the time becomes an address, and the counter becomes the time.  With a small counter, or
without entries, the reader runs past its words. -/
theorem usageFile_shifted :
    loadUsageFromFile (saveUsageToFile 1700000000 [⟨0xc0a80101, 4294967296⟩]) = some ([⟨1700000000, 192⟩], 4294967296) ∧
    loadUsageFromFile (saveUsageToFile 1700000000 [⟨0xc0a80101, 5⟩]) = none ∧
    loadUsageFromFile (saveUsageToFile 1700000000 []) = none := by
  decide +kernel

end OpenWifi.Bwctl
