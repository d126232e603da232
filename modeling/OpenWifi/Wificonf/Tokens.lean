import Mathlib.Data.List.Basic

/-!
# The tokens of a setting

`__get_token` and `__set_token` of `wificonf.c` read and replace one of the values in `key=t0;t1;...;tn`.
   The new string
has room only if it is not an empty token that is replaced.
-/

namespace OpenWifi.Wificonf

open List

abbrev Str := List Char

/-- Where the token with the index begins, if there are so many separators. -/
def skipTokens : ℕ → Str → Option Str
  | 0, p => some p
  | _ + 1, [] => none
  | idx + 1, c :: p => if c = ';' then skipTokens idx p else skipTokens (idx + 1) p

/-- `__get_token`. -/
def getToken (str : Str) (idx : ℕ) : Str :=
  match str.dropWhile (· ≠ '=') with
  | [] => []
  | _ :: p => ((skipTokens idx p).map (takeWhile (· ≠ ';'))).getD []

/-- The loop of `__set_token` that copies the tokens: `token` is between `p` and `q`, the last argument begins at `q`.
-/
def copyTokens (idx : ℕ) (value : Str) : ℕ → Str → Str → Str
  | i, token, [] => if i = idx then value else token
  | i, token, c :: q =>
    if c = ';' then (if i = idx then value else token) ++ c :: copyTokens idx value (i + 1) [] q
    else copyTokens idx value i (token ++ [c]) q

/-- `__set_token`. -/
def setToken (str : Str) (idx : ℕ) (value : Str) : Str :=
  match str.dropWhile (· ≠ '=') with
  | [] => str
  | c :: p => str.takeWhile (· ≠ '=') ++ c :: copyTokens idx value 0 [] p

def line (key : Str) (tokens : List Str) : Str := key ++ '=' :: [';'].intercalate tokens

/-- Replacing a token changes this token alone, and the new string with its zero fits the buffer, which has
`strlen(str)+strlen(value)` bytes. -/
structure IsLens (key : Str) (tokens : List Str) (i : ℕ) (v : Str) : Prop where
  same : getToken (setToken (line key tokens) i v) i = v
  other : ∀ j ≠ i, getToken (setToken (line key tokens) i v) j = getToken (line key tokens) j
  shape : ∃ tokens' : List Str, tokens'.length = tokens.length ∧ (∀ t ∈ tokens', ';' ∉ t) ∧
    setToken (line key tokens) i v = line key tokens'
  fits : (setToken (line key tokens) i v).length + 1 ≤ (line key tokens).length + v.length

section

variable {t rest : Str} (plain : ';' ∉ t)
include plain

theorem skipTokens_append (idx : ℕ) : skipTokens (idx + 1) (t ++ rest) = skipTokens (idx + 1) rest := by
  induction t with
  | nil => rfl
  | cons c t ih =>
    obtain ⟨ne, plain⟩ := not_or.1 (mt mem_cons.2 plain)
    rw [cons_append, skipTokens, if_neg (Ne.symm ne), ih plain]

theorem copyTokens_append (idx : ℕ) (v : Str) (i : ℕ) (token : Str) :
    copyTokens idx v i token (t ++ rest) = copyTokens idx v i (token ++ t) rest := by
  induction t generalizing token with
  | nil => rw [append_nil, nil_append]
  | cons c t ih =>
    obtain ⟨ne, plain⟩ := not_or.1 (mt mem_cons.2 plain)
    rw [cons_append, copyTokens, if_neg (Ne.symm ne), ih plain, append_assoc, singleton_append]

end

section

variable {c : Char} {u v : Str} (h : c ∉ u)
include h

theorem all_ne : ∀ a ∈ u, decide (a ≠ c) = true :=
  fun _ mem => decide_eq_true (ne_of_mem_of_not_mem mem h)

theorem takeWhile_ne : (u ++ c :: v).takeWhile (· ≠ c) = u := by
  rw [takeWhile_append_of_pos (all_ne h)]
  simp

theorem dropWhile_ne : (u ++ c :: v).dropWhile (· ≠ c) = c :: v := by
  rw [dropWhile_append_of_pos (all_ne h)]
  simp

end

variable {key v : Str} {i : ℕ}

theorem copyTokens_past {idx : ℕ} (past : idx < i) (token p : Str) : copyTokens idx v i token p = token ++ p := by
  induction p generalizing i token with
  | nil => rw [copyTokens, if_neg (Nat.ne_of_gt past), append_nil]
  | cons c p ih =>
    rw [copyTokens]
    split
    · rw [if_neg (Nat.ne_of_gt past), ih (by omega), nil_append]
    · rw [ih past, append_assoc, singleton_append]

theorem skipTokens_intercalate {tokens : List Str} (plain : ∀ t ∈ tokens, ';' ∉ t) (idx : ℕ) :
    ((skipTokens idx ([';'].intercalate tokens)).map (takeWhile (· ≠ ';'))).getD [] = tokens.getD idx [] := by
  induction tokens generalizing idx with
  | nil => cases idx <;> rfl
  | cons t ts ih =>
    obtain ⟨first, plain⟩ := forall_mem_cons.1 plain
    cases ts with
    | nil =>
      rw [intercalate_singleton, ← append_nil t]
      cases idx with
      | zero =>
        rw [skipTokens, Option.map_some, takeWhile_append_of_pos (all_ne first)]
        simp
      | succ idx =>
        rw [skipTokens_append first]
        rfl
    | cons t' ts =>
      rw [intercalate_cons_cons, append_assoc, singleton_append]
      cases idx with
      | zero =>
        rw [skipTokens, Option.map_some, takeWhile_ne first]
        rfl
      | succ idx =>
        rw [skipTokens_append first, skipTokens, if_pos rfl]
        exact ih plain idx

theorem getToken_line {tokens : List Str} (plain : ∀ t ∈ tokens, ';' ∉ t) (noEquals : '=' ∉ key) (idx : ℕ) :
    getToken (line key tokens) idx = tokens.getD idx [] := by
  rw [getToken, line, dropWhile_ne noEquals]
  exact skipTokens_intercalate plain idx

variable {t : Str} {before after : List Str}

theorem copyTokens_line (plain : ∀ u ∈ before ++ t :: after, ';' ∉ u) (i : ℕ) :
    copyTokens (i + before.length) v i [] ([';'].intercalate (before ++ t :: after)) =
      [';'].intercalate (before ++ v :: after) := by
  induction before generalizing i with
  | nil =>
    have first := plain t mem_cons_self
    cases after with
    | nil =>
      have whole := @copyTokens_append t [] first i v i []
      simpa [copyTokens] using whole
    | cons u after => simp [copyTokens_append first, copyTokens, copyTokens_past]
  | cons u before ih =>
    obtain ⟨first, plain⟩ := forall_mem_cons.1 plain
    have rest := ih plain (i + 1)
    rw [Nat.add_right_comm, Nat.add_assoc] at rest
    simp [intercalate_cons_of_ne_nil, copyTokens_append first, copyTokens, rest]

theorem length_line : (line key (before ++ v :: after)).length + t.length =
    (line key (before ++ t :: after)).length + v.length := by
  unfold line
  induction before with
  | nil => cases after <;> simp <;> omega
  | cons u before ih =>
    simp [intercalate_cons_of_ne_nil] at ih ⊢
    omega

/-- **The token operations are a lens exactly on tokens that are not empty.**  The buffer has one byte for each
character of the string and of the value, and none for the zero at the end. -/
theorem isLens_iff (noEquals : '=' ∉ key) (plain : ∀ u ∈ before ++ t :: after, ';' ∉ u) (plainValue : ';' ∉ v) :
    IsLens key (before ++ t :: after) before.length v ↔ t ≠ [] := by
  have set : setToken (line key (before ++ t :: after)) before.length v = line key (before ++ v :: after) := by
    have copied := copyTokens_line (v := v) plain 0
    rw [Nat.zero_add] at copied
    rw [setToken, line, dropWhile_ne noEquals, takeWhile_ne noEquals]
    exact congrArg (key ++ '=' :: ·) copied
  have plain' : ∀ u ∈ before ++ v :: after, ';' ∉ u := by
    simp only [mem_append, mem_cons] at plain ⊢
    grind
  have length := @length_line key v t before after
  constructor
  · rintro lens rfl
    have fits := lens.fits
    rw [set] at fits
    rw [length_nil] at length
    omega
  · intro nonempty
    have := length_pos_iff.2 nonempty
    refine ⟨?_, fun j ne => ?_, ⟨_, by simp, plain', set⟩, ?_⟩
    · rw [set, getToken_line plain' noEquals]
      simp
    · rw [set, getToken_line plain' noEquals, getToken_line plain noEquals]
      have other : (before ++ t :: after).set before.length v = before ++ v :: after := by simp
      rw [← other, getD_eq_getElem?_getD, getD_eq_getElem?_getD, getElem?_set_ne ne.symm]
    · rw [set]
      omega

theorem isLens_first : IsLens ['k'] [['a'], []] 0 ['x'] :=
  (@isLens_iff ['k'] ['x'] ['a'] [] [[]] (by decide) (by decide) (by decide)).2 (by decide)

theorem not_isLens_empty : ¬ IsLens ['k'] [[]] 0 ['x'] := fun lens => absurd lens.fits (by decide)

variable {tokens : List Str}

theorem setToken_line (noEquals : '=' ∉ key) (plain : ∀ u ∈ tokens, ';' ∉ u) {i : ℕ} (inside : i < tokens.length) :
    setToken (line key tokens) i v = line key (tokens.set i v) := by
  have split : tokens.take i ++ tokens[i] :: tokens.drop (i + 1) = tokens := by simp
  have copied := copyTokens_line (v := v) (split.symm ▸ plain) 0
  rw [split, length_take_of_le (Nat.le_of_lt inside), Nat.zero_add] at copied
  rw [setToken, line, dropWhile_ne noEquals, takeWhile_ne noEquals]
  simp only [copied, line, set_eq_take_append_cons_drop, inside, if_true]

/-- For any number of calls of `__set_token` the line is an array of tokens. -/
theorem setTokens_line (noEquals : '=' ∉ key) (plain : ∀ u ∈ tokens, u ≠ [] ∧ ';' ∉ u) (edits : List (ℕ × Str))
    (proper : ∀ e ∈ edits, e.1 < tokens.length ∧ e.2 ≠ [] ∧ ';' ∉ e.2) :
    edits.foldl (fun str e => setToken str e.1 e.2) (line key tokens) =
      line key (edits.foldl (fun tokens e => tokens.set e.1 e.2) tokens) := by
  induction edits generalizing tokens with
  | nil => rfl
  | cons e edits ih =>
    obtain ⟨⟨inside, value⟩, others⟩ := forall_mem_cons.1 proper
    rw [foldl_cons, setToken_line noEquals (fun u mem => (plain u mem).2) inside]
    refine ih (fun u mem => ?_) (by simpa using others)
    rcases mem_or_eq_of_mem_set mem with mem | rfl
    · exact plain u mem
    · exact value

theorem setTokens_line_two :
    [(1, ['x']), (0, ['y'])].foldl (fun str e => setToken str e.1 e.2) (line [] [['a'], ['b']]) =
    line [] [['y'], ['x']] :=
  setTokens_line (by decide) (by decide) _ (by decide)

end OpenWifi.Wificonf
