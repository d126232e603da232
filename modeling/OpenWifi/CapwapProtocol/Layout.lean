import OpenWifi.CapwapProtocol.Writer
import Mathlib.Data.List.Pairwise

/-!
# Messages and layouts

The `Message` is what the caller means: all bytes in order, every reserved field holding its last value.  The `Layout`
is what the fragments show: a write is cut off at the space of one fragment, and a field reserved when the last fragment
was full cannot be overwritten.
-/

namespace OpenWifi.CapwapProtocol

open List

def Call.bytes : Call → List UInt8
  | .writeU8 data => [data]
  | .writeU16 data => be16 data.toNat
  | .writeU32 data => be32 data.toNat
  | .writeBlock data => data
  | .reserve => [0, 0]
  | .overwrite _ _ => []

def Call.IsWrite : Call → Prop
  | .reserve => False
  | .overwrite _ _ => False
  | _ => True

@[elab_as_elim]
theorem Call.byKind {P : Call → Prop} (write : ∀ c : Call, c.IsWrite → P c) (reserve : P .reserve)
    (overwrite : ∀ field data, P (.overwrite field data)) (c : Call) : P c := by
  cases c with
  | reserve => exact reserve
  | overwrite field data => exact overwrite field data
  | _ => exact write _ trivial

/-! ## Messages -/

structure Message where
  bytes : List UInt8
  fields : List ℕ

namespace Message

def empty : Message := ⟨[], []⟩

variable (msg : Message)

def step : Call → Message
  | .overwrite field data =>
    match msg.fields[field]? with
    | none => msg
    | some k => { msg with bytes := writeAt msg.bytes k (be16 data.toNat) }
  | .reserve => ⟨msg.bytes ++ [0, 0], msg.fields ++ [msg.bytes.length]⟩
  | c => { msg with bytes := msg.bytes ++ c.bytes }

def run (calls : List Call) : Message := calls.foldl step msg

theorem step_write {c : Call} (h : c.IsWrite) : msg.step c = { msg with bytes := msg.bytes ++ c.bytes } := by
  cases c <;> first | rfl | exact h.elim

structure Valid (msg : Message) : Prop where
  inside : ∀ k ∈ msg.fields, k + 2 ≤ msg.bytes.length
  spaced : msg.fields.Pairwise fun a b => a + 2 ≤ b

theorem valid_empty : empty.Valid := ⟨by simp [empty], by simp [empty]⟩

theorem Valid.length_step {msg : Message} (h : msg.Valid) (c : Call) :
    (msg.step c).bytes.length = msg.bytes.length + c.bytes.length := by
  cases c with
  | overwrite field data =>
    cases e : msg.fields[field]? with
    | none => simp [step, e, Call.bytes]
    | some k =>
      have inside := h.inside k (mem_of_getElem? e)
      simpa [step, e, Call.bytes] using length_writeAt_within inside
  | _ => simp [step, Call.bytes]

theorem Valid.step {msg : Message} (h : msg.Valid) (c : Call) : (msg.step c).Valid := by
  have grows := h.length_step c
  have inside : ∀ k ∈ msg.fields, k + 2 ≤ (msg.step c).bytes.length := by
    intro k mem
    have := h.inside k mem
    omega
  cases c with
  | overwrite field data =>
    have same : (msg.step (.overwrite field data)).fields = msg.fields := by
      cases e : msg.fields[field]? <;> simp [Message.step, e]
    exact ⟨same ▸ inside, same ▸ h.spaced⟩
  | reserve =>
    constructor
    · exact forall_mem_append.2 ⟨inside, forall_mem_singleton.2 (by rw [grows]; rfl)⟩
    · refine pairwise_append.2 ⟨h.spaced, by simp, fun a ha b hb => ?_⟩
      rw [mem_singleton.1 hb]
      exact h.inside a ha
  | _ => exact ⟨inside, h.spaced⟩

end Message

def content (calls : List Call) : List UInt8 := (Message.empty.run calls).bytes

/-! ## Layouts -/

/-- The bytes shown behind the control message, the space left in the last fragment, and the reserved fields with how
many of their bytes an overwrite reaches. -/
structure Layout where
  shown : List UInt8
  room : ℕ
  fields : List (ℕ × ℕ)

namespace Layout

variable (fresh : ℕ)

/-- The space of the fragment that takes the next byte; `fresh` is that of a new fragment. -/
def space (lay : Layout) : ℕ := if lay.room = 0 then fresh else lay.room

def append (lay : Layout) (data : List UInt8) : Layout :=
  if data = [] then lay
  else
    { lay with
      shown := lay.shown ++ data.take (lay.space fresh)
      room := lay.space fresh - data.length }

def step (lay : Layout) : Call → Layout
  | .overwrite field data =>
    match lay.fields[field]? with
    | none => lay
    | some (k, width) =>
      { lay with shown := writeAt lay.shown k ((be16 data.toNat).take width) }
  | .reserve =>
    { lay.append fresh [0, 0] with
      fields := lay.fields ++ [(lay.shown.length, min 2 lay.room)] }
  | c => lay.append fresh c.bytes

def run (lay : Layout) (calls : List Call) : Layout := calls.foldl (step fresh) lay

def Uncut (lay : Layout) : List Call → Prop
  | [] => True
  | c :: cs => c.bytes.length ≤ lay.space fresh ∧ (lay.step fresh c).Uncut cs

instance decidableUncut : (lay : Layout) → (calls : List Call) → Decidable (lay.Uncut fresh calls)
  | _, [] => inferInstanceAs (Decidable True)
  | lay, c :: cs =>
    have := decidableUncut (lay.step fresh c) cs
    inferInstanceAs (Decidable (_ ∧ _))

theorem step_write (lay : Layout) {c : Call} (h : c.IsWrite) : lay.step fresh c = lay.append fresh c.bytes := by
  cases c <;> first | rfl | exact h.elim

theorem append_fields (lay : Layout) (data : List UInt8) : (lay.append fresh data).fields = lay.fields := by
  unfold append
  split <;> rfl

theorem length_append (lay : Layout) (data : List UInt8) :
    (lay.append fresh data).shown.length = lay.shown.length + min data.length (lay.space fresh) := by
  unfold append
  split
  case isTrue nil => simp [nil]
  case isFalse => simp [Nat.min_comm]

variable {lay : Layout}

theorem append_shown {data : List UInt8} (h : data.length ≤ lay.space fresh) :
    (lay.append fresh data).shown = lay.shown ++ data := by
  unfold append
  split
  case isTrue nil => simp [nil]
  case isFalse => simp [take_of_length_le h]

def Valid (lay : Layout) : Prop := ∀ f ∈ lay.fields, f.1 + f.2 ≤ lay.shown.length

theorem Valid.length_step (h : lay.Valid) (c : Call) :
    (lay.step fresh c).shown.length = lay.shown.length + min c.bytes.length (lay.space fresh) := by
  cases c with
  | overwrite field data =>
    cases e : lay.fields[field]? with
    | none => simp [step, e, Call.bytes]
    | some f =>
      have := h f (mem_of_getElem? e)
      have fits : f.1 + ((be16 data.toNat).take f.2).length ≤ lay.shown.length := by
        simp only [length_take, length_be16]
        omega
      simp [step, e, Call.bytes, length_writeAt_within fits]
  | _ => exact length_append fresh lay _

theorem Valid.step (h : lay.Valid) (positive : 0 < fresh) (c : Call) : (lay.step fresh c).Valid := by
  have grows := h.length_step fresh c
  have kept : ∀ f ∈ lay.fields, f.1 + f.2 ≤ (lay.step fresh c).shown.length := by
    intro f mem
    have := h f mem
    omega
  induction c using Call.byKind with
  | overwrite field data =>
    have same : (lay.step fresh (.overwrite field data)).fields = lay.fields := by
      cases e : lay.fields[field]? <;> simp [Layout.step, e]
    unfold Valid
    rwa [same]
  | reserve =>
    refine forall_mem_append.2 ⟨kept, forall_mem_singleton.2 ?_⟩
    rw [grows]
    simp only [Call.bytes, length_cons, length_nil, space]
    split <;> omega
  | write c write =>
    unfold Valid
    rwa [step_write fresh lay write, append_fields, ← step_write fresh lay write]

theorem length_run {msg : Message} (hl : lay.Valid) (hm : msg.Valid)
    (positive : 0 < fresh) (calls : List Call) (le : lay.shown.length ≤ msg.bytes.length) :
    (lay.run fresh calls).shown.length ≤ (msg.run calls).bytes.length ∧
      (lay.shown.length < msg.bytes.length ∨ ¬ lay.Uncut fresh calls →
        (lay.run fresh calls).shown.length < (msg.run calls).bytes.length) := by
  induction calls generalizing lay msg with
  | nil => exact ⟨le, fun h => h.elim id fun cut => (cut trivial).elim⟩
  | cons c cs ih =>
    have shown := hl.length_step fresh c
    have bytes := hm.length_step c
    obtain ⟨bound, behind⟩ := ih (hl.step fresh positive c) (hm.step c) (by omega)
    refine ⟨bound, fun h => behind ?_⟩
    rcases h with short | cut
    · left
      omega
    · -- either this call is cut, or a later one
      by_cases fits : c.bytes.length ≤ lay.space fresh
      · exact .inr fun rest => cut ⟨fits, rest⟩
      · left
        omega

/-! ## Uncut runs -/

/-- The position `j` belongs to a field that overwrites do not reach. -/
def Lost (lay : Layout) (j : ℕ) : Prop := ∃ k, (k, 0) ∈ lay.fields ∧ k ≤ j ∧ j < k + 2

structure Agrees (lay : Layout) (msg : Message) : Prop where
  valid : msg.Valid
  length_eq : lay.shown.length = msg.bytes.length
  fields_eq : lay.fields.map Prod.fst = msg.fields
  width : ∀ f ∈ lay.fields, f.2 = 0 ∨ f.2 = 2
  same : ∀ j, ¬ lay.Lost j → lay.shown[j]? = msg.bytes[j]?
  zero : ∀ j, lay.Lost j → lay.shown[j]? = some 0

variable {fresh}

section

variable {msg : Message} (h : lay.Agrees msg)
include h

theorem Agrees.lost_lt {j : ℕ} (lost : lay.Lost j) : j < msg.bytes.length := by
  obtain ⟨k, mem, _, lt⟩ := lost
  have : k ∈ msg.fields := by
    rw [← h.fields_eq]
    exact mem_map_of_mem mem
  have := h.valid.inside k this
  omega

theorem Agrees.apart {k j : ℕ} (mem : (k, 2) ∈ lay.fields) (low : k ≤ j) (high : j < k + 2) : ¬ lay.Lost j := by
  rintro ⟨k', mem', low', high'⟩
  have spaced : lay.fields.Pairwise fun a b => a.1 + 2 ≤ b.1 ∨ b.1 + 2 ≤ a.1 := by
    have := h.valid.spaced
    rw [← h.fields_eq, pairwise_map] at this
    exact this.imp .inl
  have : Std.Symm fun a b : ℕ × ℕ => a.1 + 2 ≤ b.1 ∨ b.1 + 2 ≤ a.1 := ⟨fun _ _ => Or.symm⟩
  have := spaced.forall mem mem' (by simp)
  omega

theorem Agrees.append (data : List UInt8) (fits : data.length ≤ lay.space fresh)
    {fields : List (ℕ × ℕ)} {positions : List ℕ} (valid : Message.Valid ⟨msg.bytes ++ data, positions⟩)
    (fields_eq : fields.map Prod.fst = positions) (width : ∀ f ∈ fields, f.2 = 0 ∨ f.2 = 2)
    (old : ∀ j, j < msg.bytes.length → ((∃ k, (k, 0) ∈ fields ∧ k ≤ j ∧ j < k + 2) ↔ lay.Lost j))
    (new : ∀ j, msg.bytes.length ≤ j → (∃ k, (k, 0) ∈ fields ∧ k ≤ j ∧ j < k + 2) →
      data[j - msg.bytes.length]? = some 0) :
    Agrees { lay.append fresh data with fields := fields } ⟨msg.bytes ++ data, positions⟩ := by
  have shown := append_shown fresh fits
  refine ⟨valid, by simp [shown, h.length_eq], fields_eq, width, ?_, ?_⟩
  · intro j lost
    rw [shown]
    rcases Nat.lt_or_ge j msg.bytes.length with low | high
    · rw [getElem?_append_left (h.length_eq ▸ low), getElem?_append_left low]
      exact h.same j fun l => lost ((old j low).2 l)
    · rw [getElem?_append_right (h.length_eq ▸ high), getElem?_append_right high, h.length_eq]
  · intro j lost
    rw [shown]
    rcases Nat.lt_or_ge j msg.bytes.length with low | high
    · rw [getElem?_append_left (h.length_eq ▸ low)]
      exact h.zero j ((old j low).1 lost)
    · rw [getElem?_append_right (h.length_eq ▸ high), h.length_eq]
      exact new j high lost

theorem Agrees.write {c : Call} (write : c.IsWrite) (fits : c.bytes.length ≤ lay.space fresh) :
    Agrees (lay.step fresh c) (msg.step c) := by
  have valid := h.valid.step c
  rw [step_write fresh lay write, msg.step_write write] at *
  have := h.append c.bytes fits valid h.fields_eq h.width (fun j _ => Iff.rfl)
    (fun j high lost => absurd (h.lost_lt lost) (by omega))
  rwa [← append_fields fresh lay c.bytes] at this

theorem Agrees.reserve (fits : 2 ≤ lay.space fresh) : Agrees (lay.step fresh .reserve) (msg.step .reserve) := by
  have valid := h.valid.step .reserve
  refine h.append [0, 0] fits valid (by simp [h.fields_eq, h.length_eq]) ?_ ?_ ?_
  · refine forall_mem_append.2 ⟨h.width, forall_mem_singleton.2 ?_⟩
    unfold space at fits
    split at fits <;> simp <;> omega
  · intro j low
    constructor
    · rintro ⟨k, mem, bounds⟩
      rcases mem_append.1 mem with old | new
      · exact ⟨k, old, bounds⟩
      · have start := (Prod.mk.inj (mem_singleton.1 new)).1
        have := h.length_eq
        omega
    · rintro ⟨k, mem, bounds⟩
      exact ⟨k, mem_append_left _ mem, bounds⟩
  · rintro j high ⟨k, mem, low, lt⟩
    rcases mem_append.1 mem with old | new
    · exact absurd (h.lost_lt ⟨k, old, low, lt⟩) (by omega)
    · have start := (Prod.mk.inj (mem_singleton.1 new)).1
      have : j - msg.bytes.length = 0 ∨ j - msg.bytes.length = 1 := by
        have := h.length_eq
        omega
      rcases this with e | e <;> rw [e] <;> rfl

theorem Agrees.overwrite (field : ℕ) (data : UInt16) :
    Agrees (lay.step fresh (.overwrite field data)) (msg.step (.overwrite field data)) := by
  have valid := h.valid.step (.overwrite field data)
  cases e : lay.fields[field]? with
  | none =>
    have e' : msg.fields[field]? = none := by simp [← h.fields_eq, e]
    simpa [Layout.step, Message.step, e, e'] using h
  | some f =>
    obtain ⟨k, width⟩ := f
    have mem := mem_of_getElem? e
    have e' : msg.fields[field]? = some k := by simp [← h.fields_eq, e]
    have inside := h.valid.inside k (mem_of_getElem? e')
    have lay_eq : lay.step fresh (.overwrite field data) =
        { lay with shown := writeAt lay.shown k ((be16 data.toNat).take width) } := by
      simp [Layout.step, e]
    have msg_eq : msg.step (.overwrite field data) = { msg with bytes := writeAt msg.bytes k (be16 data.toNat) } := by
      simp [Message.step, e']
    rw [msg_eq] at valid
    rw [lay_eq, msg_eq]
    have before : k ≤ msg.bytes.length := by omega
    have message (j : ℕ) := getElem?_writeAt before (be16 data.toNat) j
    have grown : (writeAt msg.bytes k (be16 data.toNat)).length = msg.bytes.length :=
      length_writeAt_within (by simpa using inside)
    rcases h.width _ mem with w | w <;> simp only at w <;> subst w
    · -- out of reach: the message changes at a position that the layout has lost
      refine ⟨valid, ?_, h.fields_eq, h.width, ?_, ?_⟩
      · simp [grown, h.length_eq]
      · intro j lost
        have outside : ¬ (k ≤ j ∧ j < k + (be16 data.toNat).length) := fun b => lost ⟨k, mem, b⟩
        rw [message, if_neg outside]
        simpa using h.same j lost
      · simpa using h.zero
    · have shown (j : ℕ) := getElem?_writeAt (h.length_eq ▸ before) (be16 data.toNat) j
      have full : (be16 data.toNat).take 2 = be16 data.toNat := rfl
      rw [full]
      refine ⟨valid, ?_, h.fields_eq, h.width, ?_, ?_⟩
      · simp only [grown, ← h.length_eq]
        exact length_writeAt_within (by rw [h.length_eq]; simpa using inside)
      · intro j lost
        rw [message, shown, h.same j lost]
      · intro j lost
        have outside : ¬ (k ≤ j ∧ j < k + (be16 data.toNat).length) := fun b => h.apart mem b.1 b.2 lost
        rw [shown, if_neg outside]
        exact h.zero j lost

theorem Agrees.run {calls : List Call} (uncut : lay.Uncut fresh calls) :
    Agrees (lay.run fresh calls) (msg.run calls) := by
  induction calls generalizing lay msg with
  | nil => exact h
  | cons c cs ih =>
    obtain ⟨fits, rest⟩ := uncut
    refine ih ?_ rest
    induction c using Call.byKind with
    | write c write => exact h.write write fits
    | reserve => exact h.reserve fits
    | overwrite field data => exact h.overwrite field data

end

def LostFieldsZero (lay : Layout) (bytes : List UInt8) : Prop :=
  ∀ f ∈ lay.fields, f.2 = 0 → bytes[f.1]? = some 0 ∧ bytes[f.1 + 1]? = some 0
  deriving Decidable

theorem Agrees.shown_eq_iff {msg : Message} (h : lay.Agrees msg) :
    lay.shown = msg.bytes ↔ lay.LostFieldsZero msg.bytes := by
  constructor
  · rintro e ⟨k, _⟩ mem rfl
    rw [← e]
    exact ⟨h.zero k ⟨k, mem, by omega⟩, h.zero (k + 1) ⟨k, mem, by omega⟩⟩
  · intro zeros
    apply ext_getElem?
    intro j
    by_cases lost : lay.Lost j
    · rw [h.zero j lost]
      obtain ⟨k, mem, low, high⟩ := lost
      obtain ⟨first, second⟩ := zeros _ mem rfl
      obtain rfl | rfl : j = k ∨ j = k + 1 := by omega
      · exact first.symm
      · exact second.symm
    · exact h.same j lost

def start (room : ℕ) : Layout := ⟨[], room, []⟩

theorem agrees_start (room : ℕ) : (start room).Agrees Message.empty where
  valid := Message.valid_empty
  length_eq := rfl
  fields_eq := rfl
  width := by simp [start]
  same := fun _ _ => rfl
  zero := by simp [start, Lost]

/-- The layout shows the message exactly when no write is cut off and every field out of reach of
overwrites should hold zero. -/
theorem shown_eq_iff (positive : 0 < fresh) (room : ℕ) (calls : List Call) :
    ((start room).run fresh calls).shown = content calls ↔ (start room).Uncut fresh calls ∧
        ((start room).run fresh calls).LostFieldsZero (content calls) := by
  have valid : (start room).Valid := by simp [start, Valid]
  constructor
  · intro e
    have uncut : (start room).Uncut fresh calls := by
      by_contra cut
      have behind := (length_run fresh valid Message.valid_empty positive calls le_rfl).2 (.inr cut)
      exact absurd (congrArg List.length e) (Nat.ne_of_lt behind)
    exact ⟨uncut, ((agrees_start room).run uncut).shown_eq_iff.1 e⟩
  · rintro ⟨uncut, zeros⟩
    exact ((agrees_start room).run uncut).shown_eq_iff.2 zeros

end Layout

end OpenWifi.CapwapProtocol
