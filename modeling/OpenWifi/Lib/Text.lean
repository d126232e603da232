import Mathlib.Data.List.Basic
import Mathlib.Data.List.TakeWhile

/-!
# Numbers and words in text

Text is a list of characters.  `numeral` is the number that digits of a base write, and `Nat.toDigits` writes it;
`scanInt` reads a decimal number off the front of a text as `sscanf` does, and `splitPieces` cuts a text at
separators.
-/

namespace OpenWifi

open List Option

/-! ## Numerals -/

def digitValue (c : Char) : Option ℕ :=
  if '0' ≤ c ∧ c ≤ '9' then some (c.toNat - '0'.toNat)
  else if 'a' ≤ c ∧ c ≤ 'f' then some (c.toNat - 'a'.toNat + 10)
  else if 'A' ≤ c ∧ c ≤ 'F' then some (c.toNat - 'A'.toNat + 10)
  else none

/-- The number written by these digits behind the digits of `start`, if all are digits of the base. -/
def readDigits (base start : ℕ) (digits : List Char) : Option ℕ :=
  digits.foldlM (fun n c => (digitValue c).bind fun d => if d < base then some (n * base + d) else none) start

def numeral (base : ℕ) (digits : List Char) : Option ℕ :=
  if digits = [] then none else readDigits base 0 digits

theorem digitValue_digitChar {d : ℕ} (h : d < 16) : digitValue d.digitChar = some d := by
  revert d
  decide

theorem readDigits_append (base start : ℕ) (a b : List Char) :
    readDigits base start (a ++ b) = (readDigits base start a).bind fun n => readDigits base n b := by
  simp only [readDigits, foldlM_append]
  rfl

variable {c : Char}

theorem readDigits_singleton {base d : ℕ} (value : digitValue c = some d) (h : d < base) (start : ℕ) :
    readDigits base start [c] = some (start * base + d) := by
  simp [readDigits, value, h]

section

variable {base : ℕ} (two : 1 < base) (form : Char → Char)
    (keeps : ∀ d < base, digitValue (form d.digitChar) = some d) (n : ℕ)
include two form keeps n

theorem readDigits_toDigits : readDigits base 0 ((Nat.toDigits base n).map form) = some n := by
  induction n using Nat.strong_induction_on with
  | _ n ih =>
    rw [Nat.toDigits_eq_if two]
    split
    case isTrue small => rw [map_singleton, readDigits_singleton (keeps n small) small, Nat.zero_mul, Nat.zero_add]
    case isFalse large =>
      have rest := Nat.mod_lt n (by omega : 0 < base)
      rw [map_append, readDigits_append, ih (n / base) (Nat.div_lt_self (by omega) two), bind_some,
        map_singleton, readDigits_singleton (keeps _ rest) rest, Nat.div_add_mod']

theorem numeral_toDigits : numeral base ((Nat.toDigits base n).map form) = some n := by
  rw [numeral, if_neg (by simp), readDigits_toDigits two form keeps]

end

variable (n : ℕ)

def decimal : List Char := Nat.toDigits 10 n

theorem decimal_ne_nil : decimal n ≠ [] := Nat.toDigits_ne_nil

theorem isDigit_of_mem_decimal {n : ℕ} (h : c ∈ decimal n) : c.isDigit :=
  Nat.isDigit_of_mem_toDigits (by decide) (by decide) h

@[simp] theorem numeral_decimal : numeral 10 (decimal n) = some n := by
  have read := numeral_toDigits (by decide : 1 < 10) id
    (fun d h => digitValue_digitChar (by omega)) n
  rwa [List.map_id] at read

theorem head_decimal {n : ℕ} {digits : List Char} (h : decimal n = '0' :: digits) : n = 0 ∧ digits = [] := by
  induction n using Nat.strong_induction_on generalizing digits with
  | _ n ih =>
    rw [decimal, Nat.toDigits_eq_if (by decide)] at h
    split at h
    case isTrue small =>
      obtain ⟨zero, none⟩ := cons_eq_cons.1 h
      exact ⟨Nat.digitChar_eq_zero.1 zero, none.symm⟩
    case isFalse large =>
      -- a longer number starts with the digits of its tenth, which is not zero
      obtain ⟨c, rest, front⟩ := exists_cons_of_ne_nil (decimal_ne_nil (n / 10))
      rw [← decimal, front, cons_append] at h
      obtain ⟨rfl, -⟩ := cons_eq_cons.1 h
      have := (ih (n / 10) (by omega) front).1
      omega

/-! ## Numbers of a C program

A constant is read in the base that its first characters say, as `strtoul` does with base zero.
-/

/-- The number of a constant: decimal, octal behind `0`, hexadecimal behind `0x`. -/
def constant : List Char → Option ℕ
  | '0' :: 'x' :: digits => numeral 16 digits
  | '0' :: 'X' :: digits => numeral 16 digits
  | '0' :: digits => readDigits 8 0 digits
  | digits => numeral 10 digits

@[simp] theorem constant_decimal : constant (decimal n) = some n := by
  obtain ⟨c, rest, front⟩ := exists_cons_of_ne_nil (decimal_ne_nil n)
  by_cases zero : c = '0'
  · subst zero
    obtain ⟨rfl, rfl⟩ := head_decimal front
    rw [front]
    rfl
  · have read := numeral_decimal n
    rw [front] at read ⊢
    rw [constant.eq_def]
    split
    all_goals first | exact read | exact absurd (cons_eq_cons.1 ‹_›).1 zero

/-- The conversion `0x%lX` of `printf`. -/
def hexConstant : List Char := '0' :: 'x' :: (Nat.toDigits 16 n).map Char.toUpper

@[simp] theorem constant_hexConstant : constant (hexConstant n) = some n :=
  numeral_toDigits (by decide) Char.toUpper (by decide) n

/-! ## Scanning -/

/-- `isspace` in the C locale. -/
def isSpace (c : Char) : Bool := c ∈ [' ', '\t', '\n', '\x0b', '\x0c', '\r']

def scanNat (text : List Char) : Option (ℕ × List Char) :=
  (numeral 10 (text.takeWhile Char.isDigit)).map fun n => (n, text.dropWhile Char.isDigit)

/-- The conversions `%d`, `%ld` and `%lld` of `sscanf`, before the number is cut to its type. -/
def scanInt (text : List Char) : Option (ℤ × List Char) :=
  match text.dropWhile isSpace with
  | '-' :: digits => (scanNat digits).map fun r => (-(r.1 : ℤ), r.2)
  | '+' :: digits => (scanNat digits).map fun r => ((r.1 : ℤ), r.2)
  | digits => (scanNat digits).map fun r => ((r.1 : ℤ), r.2)

/-- The conversion `%ld` of `printf`. -/
def showInt : ℤ → List Char
  | .ofNat n => decimal n
  | .negSucc n => '-' :: decimal (n + 1)

def NoDigit (rest : List Char) : Prop := ∀ c ∈ rest.head?, c.isDigit = false

theorem noDigit_nil : NoDigit [] := by
  simp [NoDigit]

theorem takeWhile_isDigit {digits rest : List Char} (all : ∀ c ∈ digits, c.isDigit) (h : NoDigit rest) :
    (digits ++ rest).takeWhile Char.isDigit = digits ∧ (digits ++ rest).dropWhile Char.isDigit = rest := by
  have stop : rest.takeWhile Char.isDigit = [] ∧ rest.dropWhile Char.isDigit = rest := by
    cases rest with
    | nil => simp
    | cons c rest => simp [h c (by simp)]
  rw [takeWhile_append_of_pos all, dropWhile_append_of_pos all, stop.1, stop.2, append_nil]
  exact ⟨rfl, rfl⟩

theorem scanNat_append (digits : List Char) {rest : List Char} (all : ∀ c ∈ digits, c.isDigit) (h : NoDigit rest) :
    scanNat (digits ++ rest) = (numeral 10 digits).map fun n => (n, rest) := by
  obtain ⟨front, behind⟩ := takeWhile_isDigit all h
  rw [scanNat, front, behind]

theorem isSpace_of_isDigit (h : c.isDigit) : isSpace c = false := by
  by_contra space
  simp only [isSpace, Bool.not_eq_false, decide_eq_true_eq, mem_cons, not_mem_nil, or_false] at space
  rcases space with rfl | rfl | rfl | rfl | rfl | rfl <;> exact absurd h (by decide)

theorem scanInt_append {digits rest : List Char} (all : ∀ c ∈ digits, c.isDigit) (some_digit : digits ≠ [])
    (h : NoDigit rest) : scanInt (digits ++ rest) = (numeral 10 digits).map fun n : ℕ => ((n : ℤ), rest) := by
  obtain ⟨c, more, rfl⟩ := exists_cons_of_ne_nil some_digit
  have digit := all c (by simp)
  have scan := scanNat_append _ all h
  rw [cons_append] at scan ⊢
  have front : (c :: (more ++ rest)).dropWhile isSpace = c :: (more ++ rest) := by
    simp [isSpace_of_isDigit digit]
  rw [scanInt, front]
  split
  case h_1 sign => exact absurd digit (by simp [(cons_eq_cons.1 sign).1])
  case h_2 sign => exact absurd digit (by simp [(cons_eq_cons.1 sign).1])
  case h_3 => rw [scan, Option.map_map]; rfl

theorem scanInt_decimal {rest : List Char} (h : NoDigit rest) : scanInt (decimal n ++ rest) = some ((n : ℤ), rest) := by
  rw [scanInt_append (fun c mem => isDigit_of_mem_decimal mem) (decimal_ne_nil n) h, numeral_decimal]
  rfl

theorem scanInt_showInt (z : ℤ) : scanInt (showInt z) = some (z, []) := by
  cases z with
  | ofNat n =>
    have scan := scanInt_decimal n noDigit_nil
    rwa [append_nil] at scan
  | negSucc n =>
    have scan := scanNat_append (decimal (n + 1))
      (fun c mem => isDigit_of_mem_decimal mem) noDigit_nil
    rw [append_nil, numeral_decimal] at scan
    have front : ('-' :: decimal (n + 1)).dropWhile isSpace = '-' :: decimal (n + 1) := by
      simp [isSpace]
    rw [showInt, scanInt, front]
    simp only [scan, map_some, some.injEq, Prod.mk.injEq, and_true]
    exact (Int.negSucc_eq n).symm

/-! ## Pieces between separators -/

def splitPieces (separator : Char → Bool) (remainder : Bool) : ℕ → List Char → List (List Char)
  | 0, _ => []
  | room + 1, text =>
    let start := text.dropWhile separator
    if start = [] then []
    else
      (if remainder && room == 0 then start else start.takeWhile fun c => !separator c) ::
        splitPieces separator remainder room (start.dropWhile fun c => !separator c)

def words (separator : Char → Bool) (text : List Char) : List (List Char) :=
  (text.splitOnP separator).filter (· ≠ [])

section Words

variable {separator : Char → Bool}

@[simp] theorem words_nil : words separator [] = [] := by
  simp [words]

theorem words_append_cons (a b : List Char) (h : separator c) :
    words separator (a ++ c :: b) = words separator a ++ words separator b := by
  rw [words, splitOnP_append_cons a b h, filter_append]
  rfl

theorem words_cons (h : separator c) (text : List Char) : words separator (c :: text) = words separator text := by
  have split := words_append_cons [] text h
  rwa [words_nil, nil_append, nil_append] at split

theorem words_singleton {word : List Char} (some_char : word ≠ []) (h : ∀ c ∈ word, separator c = false) :
    words separator word = [word] := by
  rw [words, splitOnP_eq_singleton h]
  simp [some_char]

theorem words_gap {gap : List Char} (h : ∀ c ∈ gap, separator c) (text : List Char) :
    words separator (gap ++ text) = words separator text := by
  induction gap with
  | nil => rfl
  | cons c gap ih => rw [cons_append, words_cons (h c (by simp)), ih fun d mem => h d (by simp [mem])]

theorem words_dropWhile (text : List Char) : words separator (text.dropWhile separator) = words separator text := by
  induction text with
  | nil => rfl
  | cons c text ih =>
    by_cases h : separator c
    · rw [dropWhile_cons_of_pos h, ih, words_cons h]
    · rw [dropWhile_cons_of_neg h]

theorem words_word {word : List Char} (some_char : word ≠ []) (h : ∀ c ∈ word, separator c = false)
    (sep : separator c) (text : List Char) : words separator (word ++ c :: text) = word :: words separator text := by
  rw [words_append_cons _ _ sep, words_singleton some_char h, singleton_append]

theorem not_of_dropWhile {p : Char → Bool} {text rest : List Char} (h : text.dropWhile p = c :: rest) :
    p c = false := by
  have head := head?_dropWhile_not p text
  rw [h] at head
  simpa using head

theorem words_run {text : List Char} (start : text.takeWhile (fun c => !separator c) ≠ []) :
    words separator text = text.takeWhile (fun c => !separator c) ::
      words separator (text.dropWhile fun c => !separator c) := by
  have run : ∀ c ∈ text.takeWhile (fun c => !separator c), separator c = false := by
    intro c mem
    simpa using mem_takeWhile_imp mem
  conv_lhs => rw [← takeWhile_append_dropWhile (p := fun c => !separator c) (l := text)]
  cases rest : text.dropWhile (fun c => !separator c) with
  | nil => rw [append_nil, words_singleton start run, words_nil]
  | cons c others =>
    have sep : separator c := by simpa using not_of_dropWhile rest
    rw [words_word start run sep, words_cons sep]

def EndsApart (separator : Char → Bool) (text : List Char) : Prop := ∀ c ∈ text.getLast?, separator c

def StartsApart (separator : Char → Bool) (text : List Char) : Prop := ∀ c ∈ text.head?, separator c

instance (text : List Char) : Decidable (EndsApart separator text) :=
  decidable_of_iff (text.getLast?.all separator) (all_eq_true _ _)

instance (text : List Char) : Decidable (StartsApart separator text) :=
  decidable_of_iff (text.head?.all separator) (all_eq_true _ _)

theorem words_append_of_ends {a : List Char} (h : EndsApart separator a) (b : List Char) :
    words separator (a ++ b) = words separator a ++ words separator b := by
  rcases eq_nil_or_concat' a with rfl | ⟨front, c, rfl⟩
  · rw [words_nil, nil_append, nil_append]
  · have sep : separator c := h c (by simp)
    have split := words_append_cons front [] sep
    rw [append_assoc, singleton_append, words_append_cons front b sep, split, words_nil, append_nil]

theorem words_append_of_starts (a : List Char) {b : List Char} (h : StartsApart separator b) :
    words separator (a ++ b) = words separator a ++ words separator b := by
  rcases b with _ | ⟨c, b⟩
  · rw [words_nil, append_nil, append_nil]
  · have sep : separator c := h c (by simp)
    rw [words_append_cons a b sep, words_cons sep]

theorem words_start {text : List Char} (some_char : text.dropWhile separator ≠ []) :
    words separator text = (text.dropWhile separator).takeWhile (fun c => !separator c) ::
      words separator ((text.dropWhile separator).dropWhile fun c => !separator c) := by
  obtain ⟨c, more, start⟩ := exists_cons_of_ne_nil some_char
  have first := not_of_dropWhile start
  rw [← words_dropWhile, words_run]
  simp [start, first]

/-- The text from the start of the word with the index on. -/
def restFrom (separator : Char → Bool) : ℕ → List Char → List Char
  | 0, text => text.dropWhile separator
  | k + 1, text => restFrom separator k ((text.dropWhile separator).dropWhile fun c => !separator c)

theorem splitPieces_eq (remainder : Bool) (room : ℕ) (text : List Char) : splitPieces separator remainder room text =
    if remainder ∧ 0 < room ∧ room ≤ (words separator text).length then
      (words separator text).take (room - 1) ++ [restFrom separator (room - 1) text]
    else (words separator text).take room := by
  induction room generalizing text with
  | zero => simp [splitPieces]
  | succ room ih =>
    rw [splitPieces]
    split
    case isTrue empty => simp [← words_dropWhile text, empty]
    case isFalse some_char =>
      rw [words_start some_char, ih]
      cases room with
      | zero => cases remainder <;> simp [restFrom]
      | succ room =>
        simp [restFrom]
        split_ifs <;> simp

theorem splitPieces_eq_words {remainder : Bool} {room : ℕ} {text : List Char}
    (h : text.dropWhile separator = [] ∨ (text.dropWhile separator).countP separator < room) :
    splitPieces separator remainder room text = words separator text := by
  induction room generalizing text with
  | zero =>
    have empty : text.dropWhile separator = [] := by simpa using h
    rw [splitPieces, ← words_dropWhile, empty, words_nil]
  | succ room ih =>
    rw [splitPieces]
    split
    case isTrue empty => rw [← words_dropWhile, empty, words_nil]
    case isFalse some_char =>
      have count : (text.dropWhile separator).countP separator < room + 1 := h.resolve_left some_char
      rw [words_start some_char, ih]
      · cases room with
        | zero =>
          have plain : ∀ c ∈ text.dropWhile separator, !separator c := by simpa using count
          simp [takeWhile_eq_self_iff.2 plain]
        | succ room => simp
      · -- behind the piece stands a separator or nothing
        have fewer := (dropWhile_sublist (fun c => !separator c) (l := text.dropWhile separator)).countP_le
          (p := separator)
        cases rest : (text.dropWhile separator).dropWhile (fun c => !separator c) with
        | nil => exact .inl rfl
        | cons d others =>
          have sep : separator d := by simpa using not_of_dropWhile rest
          have less := (dropWhile_sublist separator (l := others)).countP_le (p := separator)
          rw [rest, countP_cons_of_pos sep] at fewer
          rw [dropWhile_cons_of_pos sep]
          exact .inr (by omega)

theorem splitPieces_all (remainder : Bool) (text : List Char) :
    splitPieces separator remainder (text.countP separator + 1) text = words separator text := by
  apply splitPieces_eq_words
  right
  have := (dropWhile_sublist separator (l := text)).countP_le (p := separator)
  omega

end Words

end OpenWifi
