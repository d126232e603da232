import Mathlib.Data.List.Basic

/-!
# Lists of quoted strings

`parse_quoted_list` counts the quotes to size an array, and then cuts the pieces out.
-/

namespace OpenWifi.FirewallUtil

open List

/-- `quote_char` and `escape_char`. -/
structure Quoting (α : Type) where
  quote : α
  escape : α
  distinct : quote ≠ escape

namespace Quoting

variable {α : Type} [DecidableEq α] (q : Quoting α)

/-- The first loop; `previous` is `previous_is_quoted`. -/
def numQuotes : Bool → List α → ℕ
  | _, [] => 0
  | previous, c :: cs => (if c = q.quote ∧ !previous then 1 else 0) + numQuotes (c = q.escape && !previous) cs

/-- The second loop: the pieces, and the text from `next_start_index` on when a quote is open. -/
def cut : Bool → Option (List α) → List α → List (List α) × Option (List α)
  | _, start, [] => ([], start)
  | previous, none, c :: cs => cut (c = q.escape && !previous) (if c = q.quote ∧ !previous then some [] else none) cs
  | previous, some text, c :: cs =>
    if c = q.quote ∧ !previous then (cut (c = q.escape && !previous) none cs).map (text :: ·) id
    else cut (c = q.escape && !previous) (some (text ++ [c])) cs

/-- What is in `pieces` before the `NULL`. -/
def pieces (addRemainder : Bool) (listStr : List α) : List (List α) :=
  (q.cut false none listStr).1 ++ if addRemainder then (q.cut false none listStr).2.toList else []

/-- The size of `pieces`. -/
def piecesSize (listStr : List α) : ℕ := q.numQuotes false listStr / 2 + 2

/-- `parse_quoted_list`. -/
def parseQuotedList (listStr : List α) (addRemainder : Bool) : List (List α) :=
  if q.pieces addRemainder listStr = [] then [listStr] else q.pieces addRemainder listStr

/-- Every quote and every escape character belongs to an escape sequence. -/
inductive Escaped : List α → Prop
  | nil : Escaped []
  | plain {c cs} : c ≠ q.quote → c ≠ q.escape → Escaped cs → Escaped (c :: cs)
  | escape {c cs} : Escaped cs → Escaped (q.escape :: c :: cs)

/-- Strings between quotes, each behind a separator. -/
def write (strings : List (List α × List α)) : List α := strings.flatMap fun s => s.1 ++ q.quote :: (s.2 ++ [q.quote])

variable {q} {text rest : List α}

theorem length_cut (previous : Bool) (start : Option (List α)) (cs : List α) :
    2 * (q.cut previous start cs).1.length + (q.cut previous start cs).2.toList.length =
      q.numQuotes previous cs + start.toList.length := by
  induction cs generalizing previous start with
  | nil => simp [cut, numQuotes]
  | cons c cs ih =>
    cases start with
    | none =>
      rw [cut, numQuotes, ih]
      split_ifs
      · simp
        omega
      · simp
    | some text =>
      rw [cut, numQuotes]
      split_ifs
      · have := ih (c = q.escape && !previous) none
        simp at this ⊢
        omega
      · rw [ih]
        simp

theorem cut_separator {separator : List α} (plain : ∀ c ∈ separator, c ≠ q.quote ∧ c ≠ q.escape) :
    q.cut false none (separator ++ rest) = q.cut false none rest := by
  induction separator with
  | nil => rfl
  | cons c cs ih =>
    obtain ⟨⟨notQuote, notEscape⟩, others⟩ := forall_mem_cons.1 plain
    simp [cut, notQuote, notEscape, ih others]

theorem cut_escaped {string : List α} (escaped : q.Escaped string) :
    q.cut false (some text) (string ++ rest) = q.cut false (some (text ++ string)) rest := by
  induction escaped generalizing text with
  | nil => simp
  | plain notQuote notEscape _ ih => simp [cut, notQuote, notEscape, ih]
  | escape _ ih => simp [cut, q.distinct.symm, ih]

theorem cut_write {strings : List (List α × List α)}
    (proper : ∀ s ∈ strings, (∀ c ∈ s.1, c ≠ q.quote ∧ c ≠ q.escape) ∧ q.Escaped s.2) :
    q.cut false none (q.write strings) = (strings.map Prod.snd, none) := by
  induction strings with
  | nil => rfl
  | cons s strings ih =>
    obtain ⟨⟨plain, escaped⟩, others⟩ := forall_mem_cons.1 proper
    have rest : q.write (s :: strings) = s.1 ++ q.quote :: (s.2 ++ q.quote :: q.write strings) := by simp [write]
    rw [rest, cut_separator plain]
    simp [cut, q.distinct, cut_escaped escaped, ih others]

/-- The strings come back, an input with less than two quotes is returned as it is, and the array is large enough. -/
theorem parseQuotedList_spec (q : Quoting α) (listStr : List α) (addRemainder : Bool) :
    (∀ strings ≠ [], (∀ s ∈ strings, (∀ c ∈ s.1, c ≠ q.quote ∧ c ≠ q.escape) ∧ q.Escaped s.2) →
      q.parseQuotedList (q.write strings) addRemainder = strings.map Prod.snd) ∧
    (q.numQuotes false listStr < 2 → q.parseQuotedList listStr false = [listStr]) ∧
    (q.pieces addRemainder listStr).length + 1 ≤ q.piecesSize listStr := by
  have count := length_cut (q := q) false none listStr
  rw [Option.toList_none, length_nil] at count
  refine ⟨fun strings some proper => ?_, fun few => ?_, ?_⟩
  · have back : q.pieces addRemainder (q.write strings) = strings.map Prod.snd := by simp [pieces, cut_write proper]
    rw [parseQuotedList, back, if_neg (by simpa using some)]
  · have none : (q.cut false none listStr).1 = [] := length_eq_zero_iff.1 (by omega)
    exact if_pos (by simp [pieces, none])
  · have remainder : (q.cut false none listStr).2.toList.length ≤ 1 := by
      cases (q.cut false none listStr).2 <;> simp
    rw [pieces, piecesSize, length_append]
    split_ifs
    · omega
    · rw [length_nil]
      omega

theorem parseQuotedList_spec_two :
    (⟨'q', 'e', by decide⟩ : Quoting Char).parseQuotedList ['q', 'a', 'q', ' ', 'q', 'e', 'q', 'q'] false =
    [['a'], ['e', 'q']] :=
  (parseQuotedList_spec _ [] false).1 [([], ['a']), ([' '], ['e', 'q'])] (by decide)
    (by simpa using ⟨.plain (by decide) (by decide) .nil, .escape .nil⟩)

end Quoting

end OpenWifi.FirewallUtil
