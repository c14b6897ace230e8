import Omnion.Backup.NextRun
import Omnion.Workflows.Cron
import Mathlib.Data.List.ProdSigma
import Mathlib.Order.Bounds.Basic

/-!
# When a cron schedule runs next

`crates/workflows/src/cron.rs`: `next_after` goes through the days from the next minute on,
and through the hours and the minutes of each that the schedule is for.

## The model

Instants and dates are those of `Backup.Cadence`, here with the bounds of the crate `time`,
the years -9999 to 9999. An instant beyond them that is asked for panics (`none`), as
`from + Duration::minutes(1)` does.

## What is proved

* `nextAfter_right_iff` — `next_after` is right (`NextRight`) just when there is a minute after
  `from`; `last_minute` — there is none after the last of the year 9999.
-/

namespace Omnion

/-! ### The calendar -/

/-- `Date::month`. Years are counted from March, as for the day of the month. -/
def Backup.Date.month (d : Backup.Date) : ℤ :=
  let dayOfEra := (d - 1721120) % 146097
  let yearOfEra := (dayOfEra - dayOfEra / 1460 + dayOfEra / 36524 - dayOfEra / 146096) / 365
  let dayOfYear := dayOfEra - (365 * yearOfEra + yearOfEra / 4 - yearOfEra / 100)
  let month := (5 * dayOfYear + 2) / 153
  if month < 10 then month + 3 else month - 9

/-- The last day of February 2024, and the last of the year before the first of the next. -/
example : Backup.Date.month 2460370 = 2 ∧ Backup.Date.month 2460676 = 12 ∧ Backup.Date.month 2460677 = 1 := by decide

namespace Workflows.Cron

open Backup (Moment Date Weekday Time second hour day)
open Text Sorting

def minute : ℤ := 60 * second

/-- A Julian day of the years -9999 to 9999. -/
def InYears (n : ℤ) : Prop := -1930999 ≤ n ∧ n ≤ 5373484

instance (n : ℤ) : Decidable (InYears n) := inferInstanceAs (Decidable (_ ∧ _))

/-- A `Date`. -/
abbrev CalendarDate := { date : ℤ // InYears date }

/-- An `OffsetDateTime` in UTC. -/
abbrev OffsetDateTime := { x : ℤ // InYears (Moment.toJulianDay x) }

/-- `Date::next_day`. -/
def CalendarDate.nextDay (date : CalendarDate) : Option CalendarDate :=
  if h : InYears (date.val + 1) then some ⟨date.val + 1, h⟩ else none

/-- `number_days_from_sunday`. -/
def weekdayIndex : Weekday → ℕ
  | .sunday => 0
  | .monday => 1
  | .tuesday => 2
  | .wednesday => 3
  | .thursday => 4
  | .friday => 5
  | .saturday => 6

/-- The nanoseconds from midnight to an hour and a minute. -/
def clock (time : ℕ × ℕ) : ℤ := time.1 * hour + time.2 * minute

theorem clock_nonneg (time : ℕ × ℕ) : 0 ≤ clock time := by
  unfold clock hour minute second
  omega

theorem clock_lt_day {time : ℕ × ℕ} (h : time.1 < 24 ∧ time.2 < 60) : clock time < day := by
  unfold clock hour minute day second
  omega

/-- `Time::from_hms`, at the second `0`. -/
def fromHms (time : ℕ × ℕ) : Option Time :=
  if h : time.1 < 24 ∧ time.2 < 60 then some ⟨clock time, clock_nonneg time, clock_lt_day h⟩ else none

theorem inYears_on (date : CalendarDate) (time : Time) : InYears (time.on date).toJulianDay := by
  rw [Time.toJulianDay_on]
  exact date.property

/-- `Date::with_time` and `assume_utc`. -/
def CalendarDate.withTime (date : CalendarDate) (time : Time) : OffsetDateTime := ⟨time.on date, inYears_on date time⟩

namespace OffsetDateTime

/-- `OffsetDateTime::date`. -/
def date (x : OffsetDateTime) : CalendarDate := ⟨Moment.toJulianDay x, x.property⟩

/-- `x + duration`, which panics if there is no such instant. -/
def plus (x : OffsetDateTime) (duration : ℤ) : Option OffsetDateTime :=
  if h : InYears (Moment.toJulianDay (x.val + duration)) then some ⟨x.val + duration, h⟩ else none

end OffsetDateTime

theorem toJulianDay_sub_mod (x : ℤ) : Moment.toJulianDay (x - x % minute) = Moment.toJulianDay x := by
  unfold Moment.toJulianDay minute day second
  omega

theorem inYears_sub_mod (x : OffsetDateTime) : InYears (Moment.toJulianDay (x.val - x.val % minute)) := by
  rw [toJulianDay_sub_mod]
  exact x.property

/-- `replace_nanosecond(0)` and `replace_second(0)`. -/
def OffsetDateTime.wholeMinute (x : OffsetDateTime) : OffsetDateTime := ⟨x.val - x.val % minute, inYears_sub_mod x⟩

/-! ### The search -/

/-- `MAX_SEARCH_DAYS`. -/
def maxSearchDays : ℕ := 366 * 4 + 1

namespace CronSchedule

/-- A parsed-but-unrepresentable instant. -/
def unreachable (s : CronSchedule) : WorkflowError :=
  invalidCron (s.expression ++ " describes a moment that does not exist")

/-- `at`: one UTC instant from a date and a time of day. -/
def instantAt (s : CronSchedule) (date : CalendarDate) (time : ℕ × ℕ) : Except WorkflowError OffsetDateTime :=
  match fromHms time with
  | some time => .ok (date.withTime time)
  | none => .error s.unreachable

/-- The date satisfies the month and day rules. -/
def matchesDay (s : CronSchedule) (date : CalendarDate) : Bool :=
  if (Date.month date).toNat ∉ s.months then false
  else
    let dayOfMonth := decide ((Date.dayOfMonth date).toNat ∈ s.days)
    let dayOfWeek := decide (weekdayIndex (Date.weekday date) ∈ s.weekdays)
    match s.dayWildcard, s.weekdayWildcard with
    | true, true => true
    | false, true => dayOfMonth
    | true, false => dayOfWeek
    -- Two restricted fields are a union, not an intersection.
    | false, false => dayOfMonth || dayOfWeek

/-- The loops over the hours and the minutes of a day. -/
def firstRun (s : CronSchedule) (after : OffsetDateTime) (date : CalendarDate) :
    List (ℕ × ℕ) → Except WorkflowError (Option OffsetDateTime)
  | [] => .ok none
  | time :: times => do
    let candidate ← s.instantAt date time
    if candidate.val ≤ after.val then s.firstRun after date times else return some candidate

/-- What is found on a day. -/
def runOn (s : CronSchedule) (after : OffsetDateTime) (date : CalendarDate) :
    Except WorkflowError (Option OffsetDateTime) :=
  if s.matchesDay date then s.firstRun after date (s.hours ×ˢ s.minutes) else .ok none

/-- The loop over the days, at most `days` of them from `date` on. -/
def searchFrom (s : CronSchedule) (after : OffsetDateTime) : ℕ → CalendarDate → Except WorkflowError OffsetDateTime
  | 0, _ => .error (invalidCron (s.expression ++ " has no run inside the next four years"))
  | days + 1, date => do
    match ← s.runOn after date with
    | some candidate => return candidate
    | none =>
      match date.nextDay with
      | some next => s.searchFrom after days next
      | none => throw s.unreachable

/-- First run strictly after `from`; `none` is a panic. -/
def nextAfter (s : CronSchedule) (after : OffsetDateTime) : Option (Except WorkflowError OffsetDateTime) :=
  (after.plus minute).map fun later => s.searchFrom after maxSearchDays later.wholeMinute.date

end CronSchedule

/-! ### Runs -/

/-- The hour of an instant. -/
def hourOf (x : Moment) : ℕ := (x.time / hour).toNat

/-- The minute of an instant. -/
def minuteOf (x : Moment) : ℕ := (x.time / minute % 60).toNat

/-- A date is one of the days of the schedule: both its fields match, or one of them where
both are restricted. -/
def OnDay (s : CronSchedule) (date : CalendarDate) : Prop :=
  let dayOfMonth := (Date.dayOfMonth date).toNat ∈ s.days
  let dayOfWeek := weekdayIndex (Date.weekday date) ∈ s.weekdays
  if s.dayWildcard = false ∧ s.weekdayWildcard = false then dayOfMonth ∨ dayOfWeek else dayOfMonth ∧ dayOfWeek

/-- The fields of the schedule match an instant. -/
structure Fires (s : CronSchedule) (x : OffsetDateTime) : Prop where
  whole : x.val % minute = 0
  minute : minuteOf x.val ∈ s.minutes
  hour : hourOf x.val ∈ s.hours
  month : (Date.month x.date).toNat ∈ s.months
  day : OnDay s x.date

/-- The runs after an instant on the days from `date` on. -/
def runsIn (s : CronSchedule) (after : OffsetDateTime) (days : ℕ) (date : CalendarDate) : Set OffsetDateTime :=
  { x | after < x ∧ Fires s x ∧ date.val ≤ x.date.val ∧ x.date.val < date.val + days }

/-- The runs after an instant: those within the days from the next minute on. -/
def runs (s : CronSchedule) (after : OffsetDateTime) : Set OffsetDateTime :=
  { x | after < x ∧ Fires s x ∧ x.date.val < Moment.toJulianDay (after.val + minute) + maxSearchDays }

/-- What parsed schedules are like. -/
structure WellFormed (s : CronSchedule) : Prop where
  minutes : s.minutes.Pairwise (· < ·) ∧ ∀ v ∈ s.minutes, v < 60
  hours : s.hours.Pairwise (· < ·) ∧ ∀ v ∈ s.hours, v < 24
  days : s.dayWildcard = true → ∀ v, 1 ≤ v → v ≤ 31 → v ∈ s.days
  weekdays : s.weekdayWildcard = true → ∀ v, v ≤ 6 → v ∈ s.weekdays

variable {f : Field} {s : CronSchedule} {after x : OffsetDateTime} {date : CalendarDate} {values : List ℕ} {v : ℕ}
  {field : List Char} {time : ℕ × ℕ} {times : List (ℕ × ℕ)}

theorem trimmed_of_mem_words {text : List Char} (h : field ∈ Words.words isWhitespace text) :
    trimmed field = field := by
  have hnone : ∀ c ∈ field, ¬ isWhitespace c = true := fun c hc => by simp [(Words.mem_words h hc).2]
  have hstart : field.dropWhile isWhitespace = field :=
    List.dropWhile_eq_self_iff.mpr fun _ => hnone _ (List.getElem_mem _)
  have hend : field.rdropWhile isWhitespace = field :=
    List.rdropWhile_eq_self_iff.mpr fun hne => hnone _ (List.getLast_mem hne)
  rw [trimmed, hstart, hend]

theorem reads_star (f : Field) : ReadsField f ['*'] [⟨.all, none⟩] := .cons (.plain (by decide) .all) .nil

theorem mem_of_star (h : parseField f ['*'] = .ok values) (hmin : f.min ≤ v) (hmax : v ≤ f.max) : v ∈ values := by
  obtain ⟨values', hvalues', -, hmem⟩ := parseField_of_reads (reads_star f)
  obtain rfl := Except.ok.inj (h.symm.trans hvalues')
  refine (hmem v).mpr ⟨_, List.mem_singleton_self _, .inr ⟨fun n hn => ?_, hmin, hmax, ?_⟩⟩
  · cases hn
  · exact Nat.one_dvd _

theorem wellFormed_of_parse {expression : String} (h : CronSchedule.parse expression = .ok s) : WellFormed s := by
  obtain ⟨minute, hour, dayOfMonth, month, dayOfWeek, weekdays, hwords, hminutes, hhours, hdays, -, hweekdays, hnormal,
    hday, hweekday⟩ := parse_eq_ok h
  have hmem : dayOfMonth ∈ Words.words isWhitespace expression.toList ∧
      dayOfWeek ∈ Words.words isWhitespace expression.toList := by
    rw [hwords]
    simp
  constructor
  · obtain ⟨hsorted, hbounds⟩ := parseField_bounded hminutes
    exact ⟨hsorted, fun v hv => Nat.lt_succ_of_le (hbounds v hv).2⟩
  · obtain ⟨hsorted, hbounds⟩ := parseField_bounded hhours
    exact ⟨hsorted, fun v hv => Nat.lt_succ_of_le (hbounds v hv).2⟩
  · intro hstar v hmin hmax
    have hfield : dayOfMonth = ['*'] := by
      rw [hday, decide_eq_true_eq, trimmed_of_mem_words hmem.1] at hstar
      exact hstar
    subst hfield
    exact mem_of_star hdays hmin hmax
  · intro hstar v hmax
    have hfield : dayOfWeek = ['*'] := by
      rw [hweekday, decide_eq_true_eq, trimmed_of_mem_words hmem.2] at hstar
      exact hstar
    subst hfield
    have hv : v ∈ weekdays := mem_of_star hweekdays (Nat.zero_le v) (le_trans hmax (by decide))
    rw [hnormal, mem_destutter_ne, mem_sortBy, List.mem_map]
    refine ⟨v, hv, ?_⟩
    rw [weekdayOf, if_neg (by omega)]

/-! ### Days -/

theorem dayOfMonth_bounded (d : Date) : 1 ≤ d.dayOfMonth ∧ d.dayOfMonth ≤ 31 := by
  unfold Date.dayOfMonth
  dsimp only
  omega

theorem weekdayIndex_le (weekday : Weekday) : weekdayIndex weekday ≤ 6 := by cases weekday <;> decide

theorem matchesDay_iff (hs : WellFormed s) :
    s.matchesDay date ↔ (Date.month date).toNat ∈ s.months ∧ OnDay s date := by
  have hday : s.dayWildcard = true → (Date.dayOfMonth date).toNat ∈ s.days := by
    intro hstar
    have := dayOfMonth_bounded date
    exact hs.days hstar _ (by omega) (by omega)
  have hweekday : s.weekdayWildcard = true → weekdayIndex (Date.weekday date) ∈ s.weekdays :=
    fun hstar => hs.weekdays hstar _ (weekdayIndex_le _)
  rw [CronSchedule.matchesDay, OnDay]
  by_cases hmonth : (Date.month date).toNat ∈ s.months
  · rcases hd : s.dayWildcard with _ | _ <;> rcases hw : s.weekdayWildcard with _ | _
    · simp [hmonth]
    · simp [hmonth, hweekday hw]
    · simp [hmonth, hday hd]
    · simp [hmonth, hday hd, hweekday hw]
  · simp [hmonth]

theorem eq_newUtc (x : ℤ) (hbounds : time.1 < 24 ∧ time.2 < 60) :
    x = Moment.newUtc (Moment.toJulianDay x) (clock time) ↔
      x % minute = 0 ∧ hourOf x = time.1 ∧ minuteOf x = time.2 := by
  unfold Moment.newUtc Moment.toJulianDay hourOf minuteOf Moment.time clock minute hour day second
  omega

theorem fires_iff (hs : WellFormed s) : Fires s x ↔
    s.matchesDay x.date ∧ ∃ time ∈ s.hours ×ˢ s.minutes, x.val = Moment.newUtc x.date (clock time) := by
  rw [matchesDay_iff hs]
  constructor
  · rintro ⟨hwhole, hminute, hhour, hmonth, hday⟩
    refine ⟨⟨hmonth, hday⟩, (hourOf x.val, minuteOf x.val), List.pair_mem_product.mpr ⟨hhour, hminute⟩, ?_⟩
    exact (eq_newUtc _ ⟨hs.hours.2 _ hhour, hs.minutes.2 _ hminute⟩).mpr ⟨hwhole, rfl, rfl⟩
  · rintro ⟨⟨hmonth, hday⟩, time, htime, hx⟩
    obtain ⟨hhour, hminute⟩ := List.mem_product.mp htime
    obtain ⟨hwhole, hhour', hminute'⟩ := (eq_newUtc _ ⟨hs.hours.2 _ hhour, hs.minutes.2 _ hminute⟩).mp hx
    exact ⟨hwhole, hminute' ▸ hminute, hhour' ▸ hhour, hmonth, hday⟩

theorem WellFormed.bounded (hs : WellFormed s) (h : time ∈ s.hours ×ˢ s.minutes) : time.1 < 24 ∧ time.2 < 60 := by
  obtain ⟨hhour, hminute⟩ := List.mem_product.mp h
  exact ⟨hs.hours.2 _ hhour, hs.minutes.2 _ hminute⟩

theorem WellFormed.sorted (hs : WellFormed s) :
    (s.hours ×ˢ s.minutes).Pairwise fun time later => clock time < clock later := by
  change (s.hours.flatMap fun h => s.minutes.map (Prod.mk h)).Pairwise _
  refine List.pairwise_flatMap.mpr ⟨fun h _ => List.pairwise_map.mpr (hs.minutes.1.imp fun hlt => ?_), ?_⟩
  · unfold clock hour minute second
    omega
  · refine hs.hours.1.imp fun hlt time htime later hlater => ?_
    obtain ⟨m, hm, rfl⟩ := List.mem_map.mp htime
    obtain ⟨m', hm', rfl⟩ := List.mem_map.mp hlater
    have := hs.minutes.2 m hm
    unfold clock hour minute second
    omega

theorem instantAt_eq (s : CronSchedule) (date : CalendarDate) (h : time.1 < 24 ∧ time.2 < 60) :
    ∃ x, s.instantAt date time = .ok x ∧ x.val = Moment.newUtc date (clock time) := by
  refine ⟨date.withTime ⟨clock time, clock_nonneg time, clock_lt_day h⟩, ?_, rfl⟩
  rw [CronSchedule.instantAt, fromHms, dif_pos h]

/-- The instants after `after` at times of a date. -/
def onDate (after : OffsetDateTime) (date : CalendarDate) (times : List (ℕ × ℕ)) : Set OffsetDateTime :=
  { x | after < x ∧ ∃ time ∈ times, x.val = Moment.newUtc date (clock time) }

/-- The loops over the hours and the minutes find the least of them. -/
theorem firstRun_answers (s : CronSchedule) (after : OffsetDateTime) (date : CalendarDate)
    (hbounded : ∀ time ∈ times, time.1 < 24 ∧ time.2 < 60)
    (hsorted : times.Pairwise fun time later => clock time < clock later) :
    (∃ x, s.firstRun after date times = .ok (some x) ∧ IsLeast (onDate after date times) x) ∨
      s.firstRun after date times = .ok none ∧ onDate after date times = ∅ := by
  induction times with
  | nil => exact .inr ⟨rfl, Set.eq_empty_iff_forall_notMem.mpr fun x ⟨_, time, htime, _⟩ => by cases htime⟩
  | cons time times ih =>
    obtain ⟨hfirst, hsorted⟩ := List.pairwise_cons.mp hsorted
    obtain ⟨candidate, hcandidate, hval⟩ := instantAt_eq s date (hbounded time List.mem_cons_self)
    by_cases hle : candidate ≤ after
    · have hrun : s.firstRun after date (time :: times) = s.firstRun after date times := by
        rw [CronSchedule.firstRun, hcandidate]
        exact if_pos hle
      have hsame : onDate after date (time :: times) = onDate after date times := by
        ext x
        refine and_congr_right fun hafter => ?_
        rw [List.exists_mem_cons_iff]
        refine or_iff_right fun hx => absurd hafter (not_lt.mpr ?_)
        rwa [Subtype.ext (hx.trans hval.symm)]
      rw [hrun, hsame]
      exact ih (fun later hlater => hbounded later (List.mem_cons_of_mem time hlater)) hsorted
    · refine .inl ⟨candidate, ?_, ⟨not_le.mp hle, time, List.mem_cons_self, hval⟩, ?_⟩
      · rw [CronSchedule.firstRun, hcandidate]
        exact if_neg hle
      · rintro x ⟨-, later, hlater, hx⟩
        change candidate.val ≤ x.val
        rw [hval, hx]
        rcases List.mem_cons.mp hlater with rfl | hlater
        · exact le_rfl
        · exact add_le_add_right (hfirst later hlater).le _

/-! ### The search -/

variable {found : Set OffsetDateTime} {err : WorkflowError}

/-- The answer is the least instant of a set, and a failure just when there is none. -/
def Answers (answer : Except WorkflowError OffsetDateTime) (found : Set OffsetDateTime) : Prop :=
  (∀ x, answer = .ok x ↔ IsLeast found x) ∧ ((∃ err, answer = .error err) ↔ found = ∅)

theorem Answers.ok (h : IsLeast found x) : Answers (.ok x) found := by
  refine ⟨fun y => ⟨fun hy => ?_, fun hy => ?_⟩, ⟨fun ⟨err, herr⟩ => ?_, fun hnone => ?_⟩⟩
  · rwa [← Except.ok.inj hy]
  · rw [h.unique hy]
  · cases herr
  · exact absurd h.1 (hnone ▸ Set.notMem_empty x)

theorem Answers.error (h : found = ∅) : Answers (.error err) found := by
  refine ⟨fun y => ⟨fun hy => ?_, fun hy => ?_⟩, ⟨fun _ => h, fun _ => ⟨err, rfl⟩⟩⟩
  · cases hy
  · exact absurd hy.1 (h ▸ Set.notMem_empty y)

theorem lt_of_date_lt {y : OffsetDateTime} (h : x.date.val < y.date.val) : x ≤ y := by
  change x.val ≤ y.val
  change x.val / day + 2440588 < y.val / day + 2440588 at h
  unfold day second at h
  omega

theorem mem_onDate_iff (hs : WellFormed s) (hday : s.matchesDay date) :
    x ∈ onDate after date (s.hours ×ˢ s.minutes) ↔ after < x ∧ Fires s x ∧ x.date = date := by
  rw [fires_iff hs]
  constructor
  · rintro ⟨hafter, time, htime, hx⟩
    have hdate : x.date = date := by
      refine Subtype.ext ((congrArg Moment.toJulianDay hx).trans ?_)
      exact Time.toJulianDay_on ⟨clock time, clock_nonneg time, clock_lt_day (hs.bounded htime)⟩ date
    exact ⟨hafter, ⟨hdate ▸ hday, time, htime, hdate ▸ hx⟩, hdate⟩
  · rintro ⟨hafter, ⟨-, time, htime, hx⟩, rfl⟩
    exact ⟨hafter, time, htime, hx⟩

theorem runOn_answers (hs : WellFormed s) (after : OffsetDateTime) (date : CalendarDate) :
    (∃ x, s.runOn after date = .ok (some x) ∧ IsLeast { x | after < x ∧ Fires s x ∧ x.date = date } x) ∨
      s.runOn after date = .ok none ∧ { x | after < x ∧ Fires s x ∧ x.date = date } = ∅ := by
  rw [CronSchedule.runOn]
  split_ifs with hday
  · have hset : { x | after < x ∧ Fires s x ∧ x.date = date } = onDate after date (s.hours ×ˢ s.minutes) :=
      Set.ext fun x => (mem_onDate_iff hs hday).symm
    rw [hset]
    exact firstRun_answers s after date (fun time htime => hs.bounded htime) hs.sorted
  · refine .inr ⟨rfl, Set.eq_empty_iff_forall_notMem.mpr ?_⟩
    rintro x ⟨-, hfires, rfl⟩
    exact hday ((fires_iff hs).mp hfires).1

theorem nextDay_eq_none (h : date.nextDay = none) : 5373484 < date.val + 1 := by
  rw [CalendarDate.nextDay] at h
  split_ifs at h with hin
  have := date.property.1
  unfold InYears at hin
  omega

theorem nextDay_eq_some {next : CalendarDate} (h : date.nextDay = some next) : next.val = date.val + 1 := by
  rw [CalendarDate.nextDay] at h
  split_ifs at h with hin
  rw [← Option.some.inj h]

/-- **The search** finds the least run in its days, or fails if there is none. -/
theorem searchFrom_answers (hs : WellFormed s) (after : OffsetDateTime) (days : ℕ) (date : CalendarDate) :
    Answers (s.searchFrom after days date) (runsIn s after days date) := by
  induction days generalizing date with
  | zero =>
    refine .error (Set.eq_empty_iff_forall_notMem.mpr ?_)
    rintro x ⟨-, -, hfrom, hto⟩
    exact absurd (lt_of_le_of_lt hfrom hto) (by simp)
  | succ days ih =>
    rw [CronSchedule.searchFrom]
    rcases runOn_answers hs after date with ⟨x, htoday, ⟨hafter, hfires, hdate⟩, hleast⟩ | ⟨htoday, hnone⟩
    · rw [htoday]
      refine .ok ⟨⟨hafter, hfires, hdate ▸ le_rfl, by rw [hdate]; push_cast; omega⟩, ?_⟩
      rintro y ⟨hafter', hfires', hfrom, -⟩
      rcases hfrom.eq_or_lt with heq | hlt
      · exact hleast ⟨hafter', hfires', Subtype.ext heq.symm⟩
      · exact lt_of_date_lt (hdate ▸ hlt)
    · -- No run today: what is left are the days from tomorrow on.
      have hlater : ∀ x ∈ runsIn s after (days + 1) date, date.val + 1 ≤ x.date.val := by
        rintro x ⟨hafter, hfires, hfrom, -⟩
        refine Int.add_one_le_of_lt (lt_of_le_of_ne hfrom fun heq => ?_)
        exact Set.eq_empty_iff_forall_notMem.mp hnone x ⟨hafter, hfires, Subtype.ext heq.symm⟩
      rw [htoday]
      rcases hnext : date.nextDay with _ | next
      · simp only [bind, Except.bind]
        refine .error (Set.eq_empty_iff_forall_notMem.mpr fun x hx => ?_)
        have := hlater x hx
        have := nextDay_eq_none hnext
        have := x.date.property.2
        omega
      · have hval := nextDay_eq_some hnext
        have hset : runsIn s after (days + 1) date = runsIn s after days next := by
          ext x
          constructor
          · intro hx
            have := hlater x hx
            obtain ⟨hafter, hfires, -, hto⟩ := hx
            exact ⟨hafter, hfires, by omega, by push_cast at hto; omega⟩
          · rintro ⟨hafter, hfires, hfrom, hto⟩
            exact ⟨hafter, hfires, by omega, by push_cast; omega⟩
        rw [hset]
        exact ih next

/-! ### The next run -/

/-- **The next run is right**: it is the least after an instant, and an error just when there
is none. -/
def NextRight (s : CronSchedule) (after : OffsetDateTime) : Prop :=
  (∀ x, s.nextAfter after = some (.ok x) ↔ IsLeast (runs s after) x) ∧
    ((∃ err, s.nextAfter after = some (.error err)) ↔ runs s after = ∅)

theorem date_le_of_whole {x after : ℤ} (hafter : after < x) (hwhole : x % minute = 0) :
    Moment.toJulianDay (after + minute) ≤ Moment.toJulianDay x := by
  unfold minute second at hwhole
  unfold Moment.toJulianDay minute day second
  omega

theorem date_le_of_mem_runs (hx : x ∈ runs s after) : Moment.toJulianDay (after.val + minute) ≤ x.date.val :=
  date_le_of_whole (show after.val < x.val from hx.1) hx.2.1.whole

theorem inYears_plus (after : OffsetDateTime) :
    InYears (Moment.toJulianDay (after.val + minute)) ↔ Moment.toJulianDay (after.val + minute) ≤ 5373484 := by
  refine and_iff_right (le_trans after.property.1 ?_)
  unfold Moment.toJulianDay minute day second
  omega

theorem not_right_of_last (h : 5373484 < Moment.toJulianDay (after.val + minute)) : ¬ NextRight s after := by
  rintro ⟨-, herror⟩
  have hnone : runs s after = ∅ := by
    refine Set.eq_empty_iff_forall_notMem.mpr fun x hx => ?_
    have := date_le_of_mem_runs hx
    have := x.date.property.2
    omega
  obtain ⟨err, herr⟩ := herror.mpr hnone
  have hplus : after.plus minute = none := dif_neg fun hin => absurd ((inYears_plus after).mp hin) (not_le.mpr h)
  rw [CronSchedule.nextAfter, hplus] at herr
  cases herr

/-- **The next run** of a parsed schedule is right just when there is a minute after `from`. -/
theorem nextAfter_right_iff {expression : String} (h : CronSchedule.parse expression = .ok s) (after : OffsetDateTime) :
    NextRight s after ↔ Moment.toJulianDay (after.val + minute) ≤ 5373484 := by
  refine ⟨fun hright => not_lt.mp fun hlast => not_right_of_last hlast hright, fun hle => ?_⟩
  have hin := (inYears_plus after).mpr hle
  let later : OffsetDateTime := ⟨after.val + minute, hin⟩
  have hnext : s.nextAfter after = some (s.searchFrom after maxSearchDays later.wholeMinute.date) := by
    rw [CronSchedule.nextAfter, OffsetDateTime.plus, dif_pos hin]
    rfl
  have hdate : later.wholeMinute.date.val = Moment.toJulianDay (after.val + minute) :=
    toJulianDay_sub_mod (after.val + minute)
  have hruns : runs s after = runsIn s after maxSearchDays later.wholeMinute.date := by
    ext x
    constructor
    · intro hx
      exact ⟨hx.1, hx.2.1, hdate ▸ date_le_of_mem_runs hx, hdate ▸ hx.2.2⟩
    · rintro ⟨hafter, hfires, -, hto⟩
      exact ⟨hafter, hfires, hdate ▸ hto⟩
  obtain ⟨hok, herror⟩ := searchFrom_answers (wellFormed_of_parse h) after maxSearchDays later.wholeMinute.date
  rw [NextRight, hruns, hnext]
  simp only [Option.some.injEq]
  exact ⟨hok, herror⟩

theorem parse_always : ∃ s, CronSchedule.parse "* * * * *" = .ok s := by
  have hstar (f : Field) : ∃ values, parseField f ['*'] = .ok values := by
    obtain ⟨values, hvalues, -⟩ := parseField_of_reads (reads_star f)
    exact ⟨values, hvalues⟩
  obtain ⟨minutes, hminutes⟩ := hstar .minute
  obtain ⟨hours, hhours⟩ := hstar .hour
  obtain ⟨days, hdays⟩ := hstar .dayOfMonth
  obtain ⟨months, hmonths⟩ := hstar .month
  obtain ⟨weekdays, hweekdays⟩ := hstar .dayOfWeek
  have hwords : Words.words isWhitespace "* * * * *".toList = [['*'], ['*'], ['*'], ['*'], ['*']] := by decide
  rcases h : CronSchedule.parse "* * * * *" with err | s
  · rw [CronSchedule.parse, hwords] at h
    simp only [hminutes, hhours, hdays, hmonths, hweekdays] at h
    cases h
  · exact ⟨s, rfl⟩

theorem nextAfter_right_iff_epoch :
    ∃ s, CronSchedule.parse "* * * * *" = .ok s ∧ NextRight s ⟨0, by decide⟩ := by
  obtain ⟨s, hs⟩ := parse_always
  exact ⟨s, hs, (nextAfter_right_iff hs ⟨0, by decide⟩).mpr (by decide)⟩

/-- In the last minute of the year 9999 there is a panic and no error. -/
theorem last_minute :
    ∃ s, CronSchedule.parse "* * * * *" = .ok s ∧ ¬ NextRight s ⟨253402300740 * second, by decide⟩ := by
  obtain ⟨s, hs⟩ := parse_always
  exact ⟨s, hs, not_right_of_last (by decide)⟩

end Workflows.Cron

end Omnion
