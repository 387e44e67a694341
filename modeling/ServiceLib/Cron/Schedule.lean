import Mathlib.Data.Int.Order.Basic
import Mathlib.Tactic.Ring

namespace ServiceLib.Cron

/-!
# Cron endpoint — planned instants, missed runs and trigger identity

`Endpoint::Impl::fire` of `datasource/cron/libcron.cpp` is called by libcron with the delay of
the tick behind the planned occurrence.  It reads the clock again, takes the planned instant to
be that reading less the delay, and looks for occurrences between the planned instants of this
firing and of the one before.  The reading is later than the tick's, so the planned instant it
reconstructs is the occurrence plus the lateness of the reading (`scheduledAt_eq`).

Instants are nanoseconds since the epoch, the resolution of the system clock; they are unbounded
here.  The parsing of schedules is libcron's; what is assumed of it is stated in `Schedule`.
-/

/-- One second in ticks of the system clock. -/
def second : Int := 1000000000

/-- `floor<seconds>`. -/
def floorSecond (t : Int) : Int := t - t % second

/-- `libcron::CronSchedule`.  Occurrences are whole seconds, and `calculate_from(x)` answers the
    least one that is not before `x` rounded down to a second. -/
structure Schedule where
  occurs : Int → Prop
  calculateFrom : Int → Option Int
  whole : ∀ t, occurs t → t % second = 0
  occurs_next : ∀ x y, calculateFrom x = some y → occurs y
  le_next : ∀ x y, calculateFrom x = some y → floorSecond x ≤ y
  next_le : ∀ x y, calculateFrom x = some y → ∀ z, occurs z → floorSecond x ≤ z → y ≤ z
  exhausted : ∀ x, calculateFrom x = none → ∀ z, occurs z → z < floorSecond x

theorem lt_floorSecond (t : Int) : t < floorSecond t + second := by
  unfold floorSecond second
  omega

/-! ### Firings -/

/-- The loop of `fire` that counts the occurrences that are due. -/
def countDue (evaluator : Schedule) (scheduledAt cursor : Int) (due : Nat) : Nat :=
  if cursor ≤ scheduledAt then
    match hnext : evaluator.calculateFrom cursor with
    | none => due
    | some next =>
      if next ≥ scheduledAt then due
      else countDue evaluator scheduledAt (next + second) (due + 1)
  else due
termination_by (scheduledAt + second - cursor).toNat
decreasing_by
  have hle := evaluator.le_next cursor next hnext
  have hlt := lt_floorSecond cursor
  omega

/-- What `fire` hands to `dispatch`. -/
structure Fired where
  scheduledAt : Int
  missed : Bool
  deriving DecidableEq, Repr

/-- `fire`, when its owner is not cancelled; `scheduledAt` is also the new `lastScheduled`. -/
def fire (evaluator : Option Schedule) (lastScheduled : Option Int) (firedAt delay : Int) :
    Fired :=
  let scheduledAt := firedAt - delay
  let due := match lastScheduled, evaluator with
    | some last, some evaluator => countDue evaluator scheduledAt (last + second) 1
    | _, _ => 1
  ⟨scheduledAt, decide (1 < due)⟩

/-- `ScheduleMissedRunPolicy`. -/
inductive MissedRunPolicy
  | skip
  | fireOnce
  deriving DecidableEq, Repr

/-- The first check of `dispatch`. -/
def dropped (policy : MissedRunPolicy) (f : Fired) : Bool :=
  f.missed && policy == .skip

/-- One call of `fire` by libcron: the planned occurrence, what its clock read at the tick, and
    what `fire` reads. -/
structure Firing where
  planned : Int
  tick : Int
  firedAt : Int
  deriving DecidableEq, Repr

/-- `information.get_delay()`. -/
def Firing.delay (f : Firing) : Int := f.tick - f.planned

/-- How late after the tick `fire` reads the clock. -/
def Firing.lateness (f : Firing) : Int := f.firedAt - f.tick

/-- `fire` reads the clock at or after the tick, by less than one second. -/
structure Firing.Timely (f : Firing) : Prop where
  nonneg : 0 ≤ f.lateness
  lt_second : f.lateness < second

/-- The reconstructed instant is the occurrence plus the lateness of the reading. -/
theorem scheduledAt_eq (e : Option Schedule) (last : Option Int) (f : Firing) :
    (fire e last f.firedAt f.delay).scheduledAt = f.planned + f.lateness := by
  show f.firedAt - (f.tick - f.planned) = f.planned + (f.firedAt - f.tick)
  omega

theorem fire_missed (e : Schedule) (last : Int) (f : Firing) :
    (fire (some e) (some last) f.firedAt f.delay).missed =
      decide (1 < countDue e (f.planned + f.lateness) (last + second) 1) := by
  rw [← scheduledAt_eq (some e) (some last) f]
  rfl

/-! ### Missed occurrences -/

/-- An occurrence lies strictly between two instants. -/
def Schedule.Between (e : Schedule) (t u : Int) : Prop := ∃ q, e.occurs q ∧ t < q ∧ q < u

theorem le_countDue (e : Schedule) (scheduledAt cursor : Int) (due : Nat) :
    due ≤ countDue e scheduledAt cursor due := by
  fun_induction countDue e scheduledAt cursor due with
  | case1 | case2 | case4 => exact Nat.le_refl _
  | case3 _ _ _ _ _ _ ih => exact Nat.le_of_succ_le ih

/-- The loop counts something when its first round finds an occurrence before `scheduledAt`. -/
theorem lt_countDue_iff (e : Schedule) (scheduledAt cursor : Int) (due : Nat) :
    due < countDue e scheduledAt cursor due ↔
      cursor ≤ scheduledAt ∧ ∃ q, e.occurs q ∧ floorSecond cursor ≤ q ∧ q < scheduledAt := by
  rw [countDue]
  split
  case isFalse hlate =>
    exact ⟨fun h => absurd h (Nat.lt_irrefl _), fun h => absurd h.1 hlate⟩
  case isTrue hcursor =>
    split
    case h_1 hnone =>
      refine ⟨fun h => absurd h (Nat.lt_irrefl _), ?_⟩
      rintro ⟨-, q, hq, hle, -⟩
      exact absurd (e.exhausted cursor hnone q hq) (not_lt.mpr hle)
    case h_2 next hnext =>
      split
      next hge =>
        refine ⟨fun h => absurd h (Nat.lt_irrefl _), ?_⟩
        rintro ⟨-, q, hq, hle, hlt⟩
        have hmin := e.next_le cursor next hnext q hq hle
        exact absurd (lt_of_le_of_lt hmin hlt) (not_lt.mpr hge)
      next hlt =>
        refine ⟨fun _ => ⟨hcursor, next, e.occurs_next cursor next hnext,
          e.le_next cursor next hnext, not_le.mp hlt⟩, fun _ => ?_⟩
        exact Nat.lt_of_succ_le (le_countDue e scheduledAt (next + second) (due + 1))

variable {t base : Int} {i i' : LocalInterval} {f : Fired}

/-- Whole seconds apart. -/
theorem second_le_of_lt {u : Int} (ht : t % second = 0) (hu : u % second = 0) (h : t < u) :
    t + second ≤ u := by
  unfold second at *
  omega

/-- The first cursor of a firing, rounded down, is one second after the occurrence before. -/
theorem floorSecond_cursor {p j : Int} (hp : p % second = 0) (hj : 0 ≤ j) (hlt : j < second) :
    floorSecond (p + j + second) = p + second := by
  unfold floorSecond second at *
  omega

/-- **What `fire` reports.**  A firing that follows one at `f₀` reports a missed run when an
    occurrence lies between the two, and also when it reads the clock after the tick, unless the
    occurrences are one second apart and it reads less late than the one before. -/
theorem missed_iff (e : Schedule) (last : Option Int) (f₀ f₁ : Firing) (h₀ : f₀.Timely)
    (h₁ : f₁.Timely) (ho₀ : e.occurs f₀.planned) (ho₁ : e.occurs f₁.planned)
    (hlt : f₀.planned < f₁.planned) :
    (fire (some e) (some (fire (some e) last f₀.firedAt f₀.delay).scheduledAt)
        f₁.firedAt f₁.delay).missed ↔
      e.Between f₀.planned f₁.planned ∨
        (0 < f₁.lateness ∧
          ¬ (f₁.planned = f₀.planned + second ∧ f₁.lateness < f₀.lateness)) := by
  have hw₀ := e.whole _ ho₀
  have hw₁ := e.whole _ ho₁
  have hgap := second_le_of_lt hw₀ hw₁ hlt
  rw [scheduledAt_eq]
  rw [fire_missed, decide_eq_true_eq, lt_countDue_iff,
    floorSecond_cursor hw₀ h₀.nonneg h₀.lt_second]
  have hj₀ := h₀.lt_second
  have hj₁ := h₁.nonneg
  have hpos : 0 < second := by decide
  constructor
  · rintro ⟨hcursor, q, hq, hle, hqlt⟩
    rcases lt_or_ge q f₁.planned with hbefore | hafter
    · exact .inl ⟨q, hq, by omega, hbefore⟩
    · -- Only the firing's own occurrence was found.
      refine .inr ⟨by omega, ?_⟩
      rintro ⟨hnext, hless⟩
      omega
  · rintro (⟨q, hq, hafter, hbefore⟩ | ⟨hlate, hnot⟩)
    · have hwq := e.whole _ hq
      have hq₀ := second_le_of_lt hw₀ hwq hafter
      have hq₁ := second_le_of_lt hwq hw₁ hbefore
      exact ⟨by omega, q, hq, hq₀, by omega⟩
    · refine ⟨?_, f₁.planned, ho₁, hgap, by omega⟩
      by_cases hnext : f₁.planned = f₀.planned + second
      · have hge : ¬ f₁.lateness < f₀.lateness := fun hless => hnot ⟨hnext, hless⟩
        omega
      · have hfar : f₀.planned + second < f₁.planned := by omega
        have hw : (f₀.planned + second) % second = 0 := by
          unfold second at *
          omega
        have htwo := second_le_of_lt hw hw₁ hfar
        omega

/-- **Missed-run detection** is exact when the firing reads the clock at the tick, when an
    occurrence was missed, and for occurrences one second apart also when it reads less late than
    the firing before; otherwise it is not. -/
theorem missed_exact_iff (e : Schedule) (last : Option Int) (f₀ f₁ : Firing) (h₀ : f₀.Timely)
    (h₁ : f₁.Timely) (ho₀ : e.occurs f₀.planned) (ho₁ : e.occurs f₁.planned)
    (hlt : f₀.planned < f₁.planned) :
    ((fire (some e) (some (fire (some e) last f₀.firedAt f₀.delay).scheduledAt)
        f₁.firedAt f₁.delay).missed = true ↔ e.Between f₀.planned f₁.planned) ↔
      f₁.lateness = 0 ∨ e.Between f₀.planned f₁.planned ∨
        (f₁.planned = f₀.planned + second ∧ f₁.lateness < f₀.lateness) := by
  rw [missed_iff e last f₀ f₁ h₀ h₁ ho₀ ho₁ hlt]
  have hnonneg := h₁.nonneg
  by_cases hb : e.Between f₀.planned f₁.planned
  · exact ⟨fun _ => .inr (.inl hb), fun _ => ⟨fun _ => hb, fun _ => .inl hb⟩⟩
  · constructor
    · intro hexact
      by_contra hnot
      rw [not_or, not_or] at hnot
      exact hb (hexact.mp (.inr ⟨by omega, hnot.2.2⟩))
    · rintro (hzero | hmissed | hless)
      · refine ⟨fun h => h.resolve_right (fun hlate => ?_), .inl⟩
        omega
      · exact absurd hmissed hb
      · exact ⟨fun h => h.resolve_right (fun hlate => hlate.2 hless), .inl⟩

/-- The schedule `0 * * * * ?`: every full minute. -/
def everyMinute : Schedule where
  occurs t := t % 60000000000 = 0
  calculateFrom x := some (floorSecond x + -floorSecond x % 60000000000)
  whole t ht := by
    unfold second
    omega
  occurs_next x y h := by
    cases h
    omega
  le_next x y h := by
    cases h
    omega
  next_le x y h z hz hle := by
    cases h
    omega
  exhausted x h := by cases h

/-- Two firings a minute apart, the second of which reads the clock at the tick. -/
theorem missed_exact_iff_punctual :
    ((fire (some everyMinute) (some (fire (some everyMinute) none 60001000000 0).scheduledAt)
        120000000000 0).missed = true ↔ everyMinute.Between 60000000000 120000000000) := by
  exact (missed_exact_iff everyMinute none
    ⟨60000000000, 60000000000, 60001000000⟩ ⟨120000000000, 120000000000, 120000000000⟩
    ⟨by decide, by decide⟩ ⟨by decide, by decide⟩ rfl rfl (by decide)).mpr (.inl rfl)

/-- **An occurrence that was not missed is dropped.**  Both firings of a schedule that fires every
    minute read the clock one millisecond after the tick. -/
theorem fire_drops_punctual_run :
    ∃ f₀ f₁ : Firing, f₀.Timely ∧ f₁.Timely ∧ everyMinute.occurs f₀.planned ∧
      everyMinute.occurs f₁.planned ∧ f₀.planned < f₁.planned ∧
      ¬ everyMinute.Between f₀.planned f₁.planned ∧
      dropped .skip (fire (some everyMinute)
        (some (fire (some everyMinute) none f₀.firedAt f₀.delay).scheduledAt)
        f₁.firedAt f₁.delay) = true := by
  refine ⟨⟨60000000000, 60000000000, 60001000000⟩, ⟨120000000000, 120000000000, 120001000000⟩,
    ⟨by decide, by decide⟩, ⟨by decide, by decide⟩, rfl, rfl, by decide, ?_, ?_⟩
  · rintro ⟨q, hq, hafter, hbefore⟩
    have hq' : q % 60000000000 = 0 := hq
    dsimp only at hafter hbefore
    omega
  · rw [dropped, (missed_iff everyMinute none
      ⟨60000000000, 60000000000, 60001000000⟩ ⟨120000000000, 120000000000, 120001000000⟩
      ⟨by decide, by decide⟩ ⟨by decide, by decide⟩ rfl rfl (by decide)).mpr
      (.inr ⟨by decide, by decide⟩)]
    rfl

/-! ### Local intervals -/

/-- `LocalInterval`; `next` is the next planned instant. -/
structure LocalInterval where
  period : Int
  next : Int
  period_pos : 0 < period

/-- `takeDue`: the latest planned instant that is due, and whether earlier ones were skipped. -/
def LocalInterval.takeDue (i : LocalInterval) (now : Int) : Option (Fired × LocalInterval) :=
  if now < i.next then none
  else
    let skipped := (now - i.next) / i.period
    let latest := i.next + i.period * skipped
    some (⟨latest, decide (skipped ≠ 0)⟩, { i with next := latest + i.period })

/-- **Intervals are exact.**  The instant handed on is the planned one whatever the clock reads,
    and a run is reported as missed exactly when a planned instant was passed over. -/
theorem LocalInterval.takeDue_spec {now : Int}
    (h : i.takeDue now = some (f, i')) :
    (∃ k : Nat, f.scheduledAt = i.next + i.period * k ∧ (f.missed ↔ 0 < k)) ∧
      f.scheduledAt ≤ now ∧ now < f.scheduledAt + i.period ∧
      i'.next = f.scheduledAt + i.period := by
  unfold LocalInterval.takeDue at h
  split at h
  · cases h
  next hdue =>
    cases h
    have hpos := i.period_pos
    have hnonneg : 0 ≤ (now - i.next) / i.period :=
      Int.ediv_nonneg (by omega) (le_of_lt hpos)
    have hle := Int.mul_ediv_self_le (x := now - i.next) (k := i.period) (ne_of_gt hpos)
    have hlt := Int.lt_mul_ediv_self_add (x := now - i.next) hpos
    refine ⟨⟨((now - i.next) / i.period).toNat, ?_, ?_⟩, ?_, ?_, rfl⟩
    · rw [Int.toNat_of_nonneg hnonneg]
    · simp only [ne_eq, decide_eq_true_eq]
      omega
    · show i.next + i.period * ((now - i.next) / i.period) ≤ now
      omega
    · show now < i.next + i.period * ((now - i.next) / i.period) + i.period
      omega

/-- One millisecond in ticks of the system clock. -/
def millisecond : Int := 1000000

/-- `floor<milliseconds>`. -/
def floorMillisecond (t : Int) : Int := t - t % millisecond

/-- The constructor of `LocalInterval`, with the period in milliseconds; it throws when that is
    outside the supported bounds. -/
def LocalInterval.make (period anchor : Int) : Option LocalInterval :=
  if h : period < 10 ∨ period > 86400000 then none
  else some
    { period := period * millisecond
      next := floorMillisecond anchor + period * millisecond
      period_pos := by
        unfold millisecond
        omega }

/-- The calls of `takeDue` with the given readings that reported an instant. -/
def LocalInterval.takeAll : LocalInterval → List Int → List (Int × Fired)
  | _, [] => []
  | i, now :: readings =>
    match i.takeDue now with
    | none => i.takeAll readings
    | some (f, i') => (now, f) :: i'.takeAll readings

/-- The slots of an interval: the rounded anchor plus positive multiples of the period. -/
def IsSlot (base period t : Int) : Prop := ∃ k : Nat, 0 < k ∧ t = base + period * k

theorem IsSlot.step {period : Int} (h : t = base ∨ IsSlot base period t) (k : Nat) :
    IsSlot base period (t + period + period * k) := by
  rcases h with rfl | ⟨j, -, rfl⟩
  · exact ⟨k + 1, by omega, by push_cast; ring⟩
  · exact ⟨j + k + 1, by omega, by push_cast; ring⟩

/-- The slots after one that is on the grid are whole periods later. -/
theorem IsSlot.period_le {period u : Int} (hpos : 0 < period) (ht : t = base ∨ IsSlot base period t)
    (hu : IsSlot base period u) (h : t < u) : t + period ≤ u := by
  obtain ⟨j, rfl⟩ : ∃ j : Nat, t = base + period * j := by
    rcases ht with rfl | ⟨j, -, rfl⟩
    · exact ⟨0, by simp⟩
    · exact ⟨j, rfl⟩
  obtain ⟨k, -, rfl⟩ := hu
  have hlt : (j : Int) < k := Int.lt_of_mul_lt_mul_left (by omega) (le_of_lt hpos)
  have hmul : period * (j + 1) ≤ period * k := Int.mul_le_mul_of_nonneg_left (by omega) (by omega)
  rw [mul_add, mul_one] at hmul
  omega

/-- One report, after the slot `last` was reported: a later slot, the latest not after the
    reading, and missed exactly if a slot was skipped. -/
theorem LocalInterval.takeDue_slot {last now : Int}
    (hlast : last = base ∨ IsSlot base i.period last) (hnext : i.next = last + i.period)
    (h : i.takeDue now = some (f, i')) :
    last < f.scheduledAt ∧ IsSlot base i.period f.scheduledAt ∧ f.scheduledAt ≤ now ∧
      now < f.scheduledAt + i.period ∧
      (f.missed ↔ ∃ t, IsSlot base i.period t ∧ last < t ∧ t < f.scheduledAt) := by
  obtain ⟨⟨k, hk, hmissed⟩, hle, hlt, -⟩ := takeDue_spec h
  have hpos := i.period_pos
  have hmul : 0 ≤ i.period * k := Int.mul_nonneg (by omega) (by omega)
  rw [hnext] at hk
  refine ⟨by omega, hk ▸ IsSlot.step hlast k, hle, hlt, hmissed.trans ⟨fun hskip => ?_, ?_⟩⟩
  · -- The slot right after the last one was passed over.
    refine ⟨last + i.period, ?_, by omega, ?_⟩
    · simpa using IsSlot.step hlast 0
    · have hone : i.period * 1 ≤ i.period * k := Int.mul_le_mul_of_nonneg_left (by omega) (by omega)
      omega
  · rintro ⟨t, ht, hafter, hbefore⟩
    have hgap := ht.period_le hpos hlast hafter
    by_contra hzero
    obtain rfl : k = 0 := by omega
    rw [Int.ofNat_zero, mul_zero] at hk
    omega

/-- The slot reported last, or where the grid starts. -/
def lastSlot (base : Int) (reports : List (Int × Fired)) : Int :=
  (reports.getLast?.map (fun r => r.2.scheduledAt)).getD base

/-- What all reports satisfy, `last` being the slot that was reported before them. -/
structure Slots (base period last : Int) (reports : List (Int × Fired)) : Prop where
  after : ∀ r ∈ reports, last < r.2.scheduledAt
  increasing : reports.Pairwise (fun r r' => r.2.scheduledAt < r'.2.scheduledAt)
  latest : ∀ r ∈ reports, IsSlot base period r.2.scheduledAt ∧ r.2.scheduledAt ≤ r.1 ∧
    r.1 < r.2.scheduledAt + period
  missed : ∀ before r rest, reports = before ++ r :: rest → (r.2.missed ↔
    ∃ t, IsSlot base period t ∧ lastSlot last before < t ∧ t < r.2.scheduledAt)

/-- By induction over the readings; a reading before the next slot changes nothing. -/
theorem LocalInterval.takeAll_slots (readings : List Int) :
    ∀ (i : LocalInterval) (last : Int), (last = base ∨ IsSlot base i.period last) →
      i.next = last + i.period → Slots base i.period last (i.takeAll readings) := by
  induction readings with
  | nil =>
    intro i last _ _
    exact ⟨by simp [takeAll], .nil, by simp [takeAll], by simp [takeAll]⟩
  | cons now readings ih =>
    intro i last hlast hnext
    rw [takeAll]
    cases hdue : i.takeDue now with
    | none => exact ih i last hlast hnext
    | some p =>
      obtain ⟨f, i'⟩ := p
      obtain ⟨hafter, hslot, hle, hlt, hmissed⟩ := takeDue_slot hlast hnext hdue
      have hnext' := (takeDue_spec hdue).2.2.2
      have hperiod : i'.period = i.period := by
        unfold takeDue at hdue
        split at hdue
        · cases hdue
        · cases hdue
          rfl
      have hrest := ih i' f.scheduledAt (hperiod ▸ .inr hslot) (hperiod ▸ hnext')
      rw [hperiod] at hrest
      refine ⟨?_, List.pairwise_cons.mpr ⟨hrest.after, hrest.increasing⟩, ?_, ?_⟩
      · intro r hr
        rcases List.mem_cons.mp hr with rfl | hr
        · exact hafter
        · exact lt_trans hafter (hrest.after r hr)
      · intro r hr
        rcases List.mem_cons.mp hr with rfl | hr
        · exact ⟨hslot, hle, hlt⟩
        · exact hrest.latest r hr
      · intro before r rest hsplit
        cases before with
        | nil =>
          cases hsplit
          exact hmissed
        | cons b before =>
          obtain ⟨rfl, htail⟩ := List.cons.inj hsplit
          have hlastSlot : lastSlot last ((now, f) :: before) = lastSlot f.scheduledAt before := by
            cases before with
            | nil => rfl
            | cons c before => simp [lastSlot, List.getLast?_cons]
          rw [hlastSlot]
          exact hrest.missed before r rest htail

/-- **Local interval slots.**  For every period within bounds, every anchor and all readings in
    any order: the reported instants increase strictly, each is the latest slot that is not after
    its reading, and one is reported as missed exactly when a slot between the one reported
    before and itself was skipped. -/
theorem localInterval_slots (period anchor : Int) (i : LocalInterval)
    (hmake : LocalInterval.make period anchor = some i) (readings : List Int) :
    Slots (floorMillisecond anchor) (period * millisecond) (floorMillisecond anchor)
      (i.takeAll readings) := by
  unfold LocalInterval.make at hmake
  split at hmake
  · cases hmake
  · cases hmake
    exact LocalInterval.takeAll_slots readings ⟨_, _, _⟩ _ (.inl rfl) rfl

/-- A period of 10 ms from an anchor of 1.5 ms, with a reading that goes back. -/
theorem localInterval_slots_backwards : ∃ i, LocalInterval.make 10 1500000 = some i ∧
    i.takeAll [11000000, 35000000, 12000000, 41000000] =
      [(11000000, ⟨11000000, false⟩), (35000000, ⟨31000000, true⟩),
        (41000000, ⟨41000000, false⟩)] ∧
    Slots 1000000 10000000 1000000 [(11000000, ⟨11000000, false⟩), (35000000, ⟨31000000, true⟩),
      (41000000, ⟨41000000, false⟩)] :=
  ⟨⟨10000000, 11000000, by decide⟩, rfl, by decide +kernel,
    localInterval_slots 10 1500000 _ rfl [11000000, 35000000, 12000000, 41000000]⟩

open Int

end ServiceLib.Cron
