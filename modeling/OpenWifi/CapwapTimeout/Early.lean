import OpenWifi.CapwapTimeout.Order

/-!
# When a timer ends

When the clock does not go back, the time stored with a timer is the one `capwap_timeout_setexpire` computed when it was
set.
-/

namespace OpenWifi.CapwapTimeout

open List

variable (durate : ℕ)

/-- At least `durate` ms have gone by since `start`, up to a part of a millisecond. -/
def Elapsed (start now : Timeval) : Prop :=
  (durate : ℤ) * 1000 < now.micros - start.micros + 1000
  deriving Decidable

theorem getdelta_setexpire_le {durate : ℕ} {start now : Timeval} (le : start.micros ≤ now.micros) :
    getdelta (setexpire durate start) now ≤ durate := by
  have expire := micros_setexpire durate start
  have := (setexpire durate start).usec_lt
  have := now.usec_lt
  rw [getdelta, tdiv_eq]
  unfold Timeval.micros at expire le
  split <;> omega

theorem elapsed_of_getdelta {durate : ℕ} {start now : Timeval}
    (whole : durate % 1000 = 0 ∨ durate % 1000 = 1 ∧ start.usec = 999999)
    (expired : getdelta (setexpire durate start) now ≤ 0) : Elapsed durate start now := by
  have := now.usec_lt
  have := start.usec_lt
  rw [getdelta, tdiv_eq] at expired
  unfold setexpire at expired
  unfold Elapsed Timeval.micros
  rcases whole with whole | ⟨whole, carry⟩
  · rw [dif_pos (by omega)] at expired
    dsimp only at expired
    split at expired <;> omega
  · rw [dif_neg (by omega)] at expired
    dsimp only at expired
    split at expired <;> omega

def earliest (start : Timeval) : Timeval :=
  if (setexpire durate start).sec = start.sec then start
  else ⟨(setexpire durate start).sec, (setexpire durate start).usec - 999,
    Nat.lt_of_le_of_lt (Nat.sub_le _ _) (setexpire durate start).usec_lt⟩

theorem earliest_expired (start : Timeval) :
    start.micros ≤ (earliest durate start).micros ∧ getdelta (setexpire durate start) (earliest durate start) ≤ 0 := by
  have expire := micros_setexpire durate start
  have := (setexpire durate start).usec_lt
  have := start.usec_lt
  rw [getdelta, tdiv_eq]
  unfold earliest
  unfold Timeval.micros at expire ⊢
  split
  · split <;> omega
  · dsimp only
    split <;> omega

theorem not_elapsed_earliest {durate : ℕ} {start : Timeval}
    (part : ¬(durate % 1000 = 0 ∨ durate % 1000 = 1 ∧ start.usec = 999999)) :
    ¬Elapsed durate start (earliest durate start) := by
  have expire := micros_setexpire durate start
  have := (setexpire durate start).usec_lt
  have := start.usec_lt
  unfold Elapsed earliest
  unfold Timeval.micros at expire ⊢
  split
  · omega
  · dsimp only
    omega

namespace Timeout

variable {t t' : Timeout α} {e : Event α} {x : Item α}

theorem mem_unset {index : ℕ} (unset : t.unset index = some t') (mem : x ∈ t'.itemstimeout) : x ∈ t.itemstimeout := by
  rcases unset_cases unset with ⟨rfl, -⟩ | ⟨old, -, -, rfl⟩
  · exact mem
  · exact mem_of_mem_filter mem

inductive Origin (t : Timeout α) (x : Item α) : Event α → Prop
  | kept {e : Event α} (mem : x ∈ t.itemstimeout) : Origin t x e
  | set {index durate node : ℕ} {action : α} {now : Timeval} (durate_eq : x.durate = durate)
    (expire : x.expire = setexpire durate now) (action_eq : x.action = action) :
    Origin t x (.set index durate action now node)
  | recalculated {e : Event α} {now : Timeval} {head : Item α} (event : e = .getcoming now ∨ e = .hasexpired now)
    (mem : head ∈ t.itemstimeout) (beyond : head.durate < getdelta head.expire now) : Origin t x e

variable {now : Timeval}

theorem origin_getcoming (event : e = .getcoming now ∨ e = .hasexpired now)
    (mem : x ∈ (t.getcoming now).1.itemstimeout) : Origin t x e := by
  rcases getcoming_cases t now with ⟨-, eq⟩ | ⟨item, rest, items, ⟨-, eq⟩ | ⟨-, -, eq⟩ | ⟨beyond, eq⟩⟩
  · exact .kept (by rwa [eq] at mem)
  · exact .kept (by rwa [eq] at mem)
  · exact .kept (by rwa [eq] at mem)
  · exact .recalculated event (by rw [items]; exact mem_cons_self) beyond

theorem origin_step (next : t.step e = some t') (mem : x ∈ t'.itemstimeout) : Origin t x e := by
  cases e with
  | createtimer =>
    obtain rfl := Option.some.inj next
    exact .kept (by simpa using mem)
  | deletetimer index =>
    obtain ⟨bits, t'', unset, rfl⟩ := deletetimer_cases next
    rcases unset with rfl | unset
    · exact .kept mem
    · exact .kept (mem_unset unset mem)
  | set index durate action now node =>
    obtain ⟨r, set, rfl⟩ := Option.map_eq_some_iff.1 next
    rcases set_cases set with ⟨bits, i, eq, -, -⟩ | ⟨old, -, -, eq, -⟩
    · rw [eq] at mem
      rcases mem_additem.1 mem with rfl | mem
      · exact .set rfl rfl rfl
      · exact .kept mem
    · rw [eq] at mem
      rcases mem_additem.1 mem with rfl | mem
      · exact .set rfl rfl rfl
      · exact .kept (mem_of_mem_filter mem)
  | unset index => exact .kept (mem_unset next mem)
  | unsetall =>
    cases next
    exact absurd mem not_mem_nil
  | getcoming now =>
    cases next
    exact origin_getcoming (.inl rfl) mem
  | hasexpired now =>
    cases next
    refine origin_getcoming (.inr rfl) ?_
    rcases hasexpired_cases t now with ⟨-, eq⟩ | ⟨item, rest, items, -, eq⟩
    · rwa [eq] at mem
    · rw [eq] at mem
      rw [items]
      exact mem_cons_of_mem _ mem

def Event.time (clock : Timeval) : Event α → Timeval
  | .set _ _ _ now _ => now
  | .getcoming now => now
  | .hasexpired now => now
  | _ => clock

def tick (s : Timeval × Timeout α) (e : Event α) : Option (Timeval × Timeout α) :=
  (s.2.step e).map fun t => (e.time s.1, t)

def Forward (s : Timeval × Timeout (α × Timeval)) (e : Event (α × Timeval)) : Prop :=
  s.1.micros ≤ (e.time s.1).micros ∧ match e with
    | .set _ _ action now _ => action.2 = now
    | _ => True

def Stamped (s : Timeval × Timeout (α × Timeval)) : Prop :=
  ∀ x ∈ s.2.itemstimeout, x.action.2.micros ≤ s.1.micros ∧ x.expire = setexpire x.durate x.action.2

theorem Stamped.getdelta_le {s : Timeval × Timeout (α × Timeval)} (stamped : Stamped s)
    (le : s.1.micros ≤ now.micros) {x : Item (α × Timeval)} (mem : x ∈ s.2.itemstimeout) :
    getdelta x.expire now ≤ x.durate := by
  obtain ⟨past, expire⟩ := stamped x mem
  rw [expire]
  exact getdelta_setexpire_le (Int.le_trans past le)

theorem stamped_tick {s s' : Timeval × Timeout (α × Timeval)} {e : Event (α × Timeval)} (stamped : Stamped s)
    (forward : Forward s e) (next : tick s e = some s') : Stamped s' := by
  obtain ⟨t', step, rfl⟩ := Option.map_eq_some_iff.1 next
  intro x mem
  cases origin_step step mem with
  | kept mem => exact ⟨Int.le_trans (stamped x mem).1 forward.1, (stamped x mem).2⟩
  | set durate expire action =>
    have carries := forward.2
    rw [← action] at carries
    exact ⟨by rw [carries]; exact Int.le_refl _, by rw [expire, durate, carries]⟩
  | recalculated event mem beyond =>
    have le := stamped.getdelta_le forward.1 mem
    rcases event with rfl | rfl <;> exact absurd beyond (Int.not_lt.2 le)

theorem Stamped.hasexpired {s : Timeval × Timeout (α × Timeval)} (stamped : Stamped s)
    (le : s.1.micros ≤ now.micros) {x : Item (α × Timeval)} (ended : (s.2.hasexpired now).2 = some x) :
    getdelta (setexpire x.durate x.action.2) now ≤ 0 := by
  rcases hasexpired_cases s.2 now with ⟨-, eq⟩ | ⟨item, rest, items, zero, eq⟩
  · simp [eq] at ended
  · obtain rfl : item = x := by simpa [eq] using ended
    rcases getcoming_cases s.2 now with ⟨none, eq'⟩ | ⟨head, rest', items', coming⟩
    · rw [eq', none] at items
      simp at items
    · have mem : head ∈ s.2.itemstimeout := by rw [items']; exact mem_cons_self
      rcases coming with ⟨expired, eq'⟩ | ⟨pos, -, eq'⟩ | ⟨beyond, -⟩
      · rw [eq', items'] at items
        obtain ⟨rfl, -⟩ := List.cons.inj items
        rwa [← (stamped head mem).2]
      · rw [eq'] at zero
        exact absurd zero (Int.ne_of_gt pos)
      · exact absurd (stamped.getdelta_le le mem) (Int.not_le.2 beyond)

theorem hasexpired_set (action : α) (durate : ℕ) (start : Timeval)
    (expired : getdelta (setexpire durate start) now ≤ 0) :
    ∃ t x, runFrom tick (start, init) [.set 1 durate action start 0] = some (start, t) ∧
      (t.hasexpired now).2 = some x ∧ x.durate = durate ∧ x.action = action := by
  let item : Item α := ⟨0, 1, durate, setexpire durate start, action⟩
  refine ⟨(init : Timeout α).insert item, item, rfl, ?_, rfl, rfl⟩
  have items : ((init : Timeout α).insert item).itemstimeout = [item] := rfl
  simp only [Timeout.hasexpired, Timeout.getcoming, items, item, if_pos expired]
  simp

/-- A timer ends only when its time has gone by exactly when the duration is in whole seconds or is one millisecond
more, set in the last microsecond of a second. -/
theorem hasexpired_elapsed_iff (callback : α) (durate : ℕ) (start : Timeval) :
    (∀ (clock now : Timeval) (es : List (Event (α × Timeval))) (s : Timeval × Timeout (α × Timeval)) x,
      Along tick Forward (clock, init) es → runFrom tick (clock, init) es = some s →
      s.1.micros ≤ now.micros → (s.2.hasexpired now).2 = some x → x.durate = durate →
      x.action = (callback, start) → Elapsed durate start now ∧ x.expire.usec < 1000000) ↔
    (durate % 1000 = 0 ∨ durate % 1000 = 1 ∧ start.usec = 999999) := by
  constructor
  · intro never
    by_contra part
    obtain ⟨past, expired⟩ := earliest_expired durate start
    obtain ⟨t, x, run, ended, durate_eq, action⟩ := hasexpired_set (callback, start) durate start expired
    have forward : Along tick Forward (start, (init : Timeout (α × Timeval)))
        [.set 1 durate (callback, start) start 0] := ⟨⟨Int.le_refl _, rfl⟩, fun _ _ => trivial⟩
    exact not_elapsed_earliest part
      (never start (earliest durate start) _ (start, t) x forward run past ended durate_eq action).1
  · rintro whole clock now es s x along run le ended rfl action
    have start' : Stamped (clock, (init : Timeout (α × Timeval))) := fun x mem => absurd mem not_mem_nil
    have stamped := along.invariant (fun _ _ _ => stamped_tick) start' run
    have expired := stamped.hasexpired le ended
    rw [action] at expired
    exact ⟨elapsed_of_getdelta whole expired, x.expire.usec_lt⟩

/-- A timer of half a second ends at the time at which it is set. -/
theorem hasexpired_early : ∃ t, Along tick Forward (seconds 0, init) [.set 1 500 ((), seconds 0) (seconds 0) 0] ∧
      runFrom tick (seconds 0, init) [.set 1 500 ((), seconds 0) (seconds 0) 0] = some (seconds 0, t) ∧
      (t.hasexpired (seconds 0)).2.map (fun x => (x.durate, x.action)) = some (500, (), seconds 0) ∧
      ¬Elapsed 500 (seconds 0) (seconds 0) :=
  ⟨_, ⟨⟨by decide, rfl⟩, fun _ _ => trivial⟩, rfl, by decide +kernel, by decide⟩

end Timeout

end OpenWifi.CapwapTimeout
