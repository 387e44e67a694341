import ServiceLib.Cron.Schedule

namespace ServiceLib.Cron

/-!
# Schedule triggers — identity

`MakeScheduleTrigger` of `runtime/schedule.hpp`: the trigger that a run hands to the pipeline.
Its identity is a hash of the endpoint, the schedule and the planned instant, written as a UTC
timestamp with the fraction of a second, if there is one, so two runs agree on it only if both read
the clock equally late (`trigger_identity_iff`).

The hash is a parameter.
-/

open List

/-! ### Timestamps -/

/-- `year_month_day`. -/
structure Date where
  year : Int
  month : Nat
  day : Nat
  deriving DecidableEq, Repr

/-- The proleptic Gregorian date of a day since the epoch.  Years are counted from March here,
    so that the leap day is the last one, and in eras of 400 years. -/
def dateOfDay (day : Int) : Date :=
  let z := day + 719468
  let era := z / 146097
  let dayOfEra := (z - era * 146097).toNat
  let yearOfEra :=
    (dayOfEra - dayOfEra / 1460 + dayOfEra / 36524 - dayOfEra / 146096) / 365
  let dayOfYear := dayOfEra - (365 * yearOfEra + yearOfEra / 4 - yearOfEra / 100)
  let month := (5 * dayOfYear + 2) / 153
  { year := yearOfEra + era * 400 + (if month < 10 then 0 else 1)
    month := if month < 10 then month + 3 else month - 9
    day := dayOfYear - (153 * month + 2) / 5 + 1 }

/-- `setfill('0')` with `setw(width)`. -/
def zeroFill (width : Nat) (digits : String) : String :=
  String.ofList (replicate (width - digits.length) '0') ++ digits

/-- The digits of a fraction of a second without the zeros at their end. -/
def fractionDigits (nanos : Nat) : String :=
  String.ofList
    ((zeroFill 9 (toString nanos)).toList.reverse.dropWhile (· == '0')).reverse

/-- `FormatScheduleTimestamp`. -/
def formatScheduleTimestamp (value : Int) : String :=
  let wholeSeconds := value / second
  let day := wholeSeconds / 86400
  let date := dateOfDay day
  let time := (wholeSeconds - day * 86400).toNat
  let nanos := (value - wholeSeconds * second).toNat
  zeroFill 4 (toString date.year) ++ "-" ++ zeroFill 2 (toString date.month) ++ "-" ++
    zeroFill 2 (toString date.day) ++ "T" ++ zeroFill 2 (toString (time / 3600)) ++ ":" ++
    zeroFill 2 (toString (time % 3600 / 60)) ++ ":" ++ zeroFill 2 (toString (time % 60)) ++
    (if nanos ≠ 0 then "." ++ fractionDigits nanos else "") ++ "Z"

example : formatScheduleTimestamp 1787574600123456000 = "2026-08-24T12:30:00.123456Z" := by
  decide +kernel

/-! ### Triggers -/

/-- `ScheduleBackend`. -/
inductive ScheduleBackend
  | kLocal
  | kTemporal
  deriving DecidableEq, Repr

structure ScheduleTrigger where
  triggerId : String
  scheduleId : String
  scheduledAt : Int
  firedAt : Int
  backend : ScheduleBackend
  deriving DecidableEq, Repr

/-- What `makeScheduleTrigger` throws. -/
inductive TriggerError
  /-- "endpointId must be positive" -/
  | endpointId
  /-- "scheduleId must not be empty" -/
  | scheduleId
  deriving DecidableEq, Repr

/-- The string whose hash is the identity of a trigger. -/
def triggerIdentity (endpointId : Int) (scheduleId : String) (scheduledAt : Int) : String :=
  "servicegen:schedule-trigger:v1\n" ++ toString endpointId ++ "\n" ++ scheduleId ++ "\n" ++
    formatScheduleTimestamp scheduledAt

/-- `MakeScheduleTrigger`, with the hash `sha256`. -/
def makeScheduleTrigger (sha256 : String → String) (endpointId : Int) (scheduleId : String)
    (scheduledAt firedAt : Int) (backend : ScheduleBackend) :
    Except TriggerError ScheduleTrigger :=
  if endpointId < 1 then .error .endpointId
  else if scheduleId = "" then .error .scheduleId
  else .ok
    { triggerId := sha256 (triggerIdentity endpointId scheduleId scheduledAt)
      scheduleId, scheduledAt, firedAt, backend }

/-- The trigger is a function of endpoint, schedule and planned instant, but for `firedAt`. -/
theorem makeScheduleTrigger_ok {sha256 : String → String} {endpointId : Int} {scheduleId : String}
    {scheduledAt firedAt : Int} {backend : ScheduleBackend} {t : ScheduleTrigger}
    (h : makeScheduleTrigger sha256 endpointId scheduleId scheduledAt firedAt backend = .ok t) :
    t = ⟨sha256 (triggerIdentity endpointId scheduleId scheduledAt), scheduleId, scheduledAt,
      firedAt, backend⟩ := by
  unfold makeScheduleTrigger at h
  split at h
  · cases h
  · split at h
    · cases h
    · cases h
      rfl

/-! ### Runs of an endpoint -/

/-- What an endpoint hands to `dispatch` for the firings of a run, the `lastScheduled` of each
    being what the one before left. -/
def fireAll (evaluator : Option Schedule) : Option Int → List Firing → List Fired
  | _, [] => []
  | lastScheduled, f :: fs =>
    let fired := fire evaluator lastScheduled f.firedAt f.delay
    fired :: fireAll evaluator (some fired.scheduledAt) fs

/-- The planned instant of a firing does not depend on the firings before it. -/
theorem fireAll_scheduledAt (e : Option Schedule) (last : Option Int) (fs : List Firing) :
    (fireAll e last fs).map Fired.scheduledAt = fs.map (fun f => f.planned + f.lateness) := by
  induction fs generalizing last with
  | nil => rfl
  | cons f fs ih =>
    rw [fireAll, map_cons, map_cons, scheduledAt_eq, ih]

theorem scheduledAt_of_getElem? {e : Option Schedule} {last : Option Int} {fs : List Firing}
    {k : Nat} {f : Firing} {r : Fired} (hf : fs[k]? = some f)
    (hr : (fireAll e last fs)[k]? = some r) : r.scheduledAt = f.planned + f.lateness := by
  have hmap := congrArg (fun l => l[k]?) (fireAll_scheduledAt e last fs)
  simp only [getElem?_map, hf, hr, Option.map_some] at hmap
  exact Option.some.inj hmap

/-- **Trigger identity.**  Two runs of an endpoint with the same ticks hand the same planned
    instant and the same identity to the pipeline for an occurrence exactly when they read the
    clock equally late after its tick. -/
theorem trigger_identity_iff (sha256 : String → String) (endpointId : Int) (endpointName : String)
    (e : Option Schedule) (last last' : Option Int) (fs fs' : List Firing)
    (hticks : fs.map (fun f => (f.planned, f.tick)) = fs'.map (fun f => (f.planned, f.tick)))
    (k : Nat) (f f' : Firing) (hf : fs[k]? = some f) (hf' : fs'[k]? = some f') (r r' : Fired)
    (hr : (fireAll e last fs)[k]? = some r) (hr' : (fireAll e last' fs')[k]? = some r')
    (now now' : Int) (t t' : ScheduleTrigger)
    (ht : makeScheduleTrigger sha256 endpointId endpointName r.scheduledAt now .kLocal = .ok t)
    (ht' : makeScheduleTrigger sha256 endpointId endpointName r'.scheduledAt now' .kLocal =
      .ok t') :
    (t.scheduledAt = t'.scheduledAt ∧ t.triggerId = t'.triggerId) ↔ f.lateness = f'.lateness := by
  have hsame := congrArg (fun l => l[k]?) hticks
  simp only [getElem?_map, hf, hf', Option.map_some] at hsame
  have hplanned : f.planned = f'.planned := congrArg Prod.fst (Option.some.inj hsame)
  have hs := scheduledAt_of_getElem? hf hr
  have hs' := scheduledAt_of_getElem? hf' hr'
  rw [makeScheduleTrigger_ok ht, makeScheduleTrigger_ok ht']
  dsimp only
  constructor
  · rintro ⟨hinstant, -⟩
    omega
  · intro hlate
    have hinstant : r.scheduledAt = r'.scheduledAt := by omega
    rw [hinstant]
    exact ⟨rfl, rfl⟩

/-- Two runs of two firings.  The first firing reads the clock at the tick in one run and five
    milliseconds later in the other; the second reads it one millisecond late in both. -/
theorem trigger_identity_iff_equally_late :
    ∃ t t' : ScheduleTrigger,
      makeScheduleTrigger id 17 "minutely" 120001000000 120202000000 .kLocal = .ok t ∧
      makeScheduleTrigger id 17 "minutely" 120001000000 120209000000 .kLocal = .ok t' ∧
      t.scheduledAt = t'.scheduledAt ∧ t.triggerId = t'.triggerId := by
  refine ⟨_, _, rfl, rfl, ?_⟩
  exact (trigger_identity_iff id 17 "minutely" (some everyMinute) none (some 0)
    [⟨60000000000, 60100000000, 60100000000⟩, ⟨120000000000, 120200000000, 120201000000⟩]
    [⟨60000000000, 60100000000, 60105000000⟩, ⟨120000000000, 120200000000, 120201000000⟩] rfl 1
    _ _ rfl rfl _ _ rfl rfl 120202000000 120209000000 _ _ rfl rfl).mpr rfl

/-- **Two identities for one occurrence.**  The runs differ only in that the second reads the
    clock one millisecond after the tick. -/
theorem trigger_identity_jitters :
    ∃ fs fs' : List Firing,
      fs.map (fun f => (f.planned, f.tick)) = fs'.map (fun f => (f.planned, f.tick)) ∧
      (∀ f ∈ fs, f.Timely) ∧ (∀ f ∈ fs', f.Timely) ∧
      ∃ r r' : Fired, fireAll none none fs = [r] ∧ fireAll none none fs' = [r'] ∧
        r.scheduledAt ≠ r'.scheduledAt ∧
        triggerIdentity 17 "hourly" r.scheduledAt ≠ triggerIdentity 17 "hourly" r'.scheduledAt := by
  refine ⟨[⟨60000000000, 60200000000, 60200000000⟩], [⟨60000000000, 60200000000, 60201000000⟩],
    rfl, ?_, ?_, _, _, rfl, rfl, by decide, by decide +kernel⟩
  all_goals
    intro f hf
    rw [mem_singleton.mp hf]
    exact ⟨by decide, by decide⟩

end ServiceLib.Cron
