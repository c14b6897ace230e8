import Omnion.Core.Text
import Omnion.Library.LocalTime
import Omnion.Library.Sorting

/-!
# When a schedule runs next

`crates/backup/src/cadence.rs`: the instants at which a schedule fires, and `next_after`,
which looks for the next one day by day in the calendar of the schedule's zone.

## The model

An instant is an `OffsetDateTime` in UTC, in nanoseconds since the Unix epoch; a date is
its Julian day. A zone is the function from instants to offsets that its table gives; the
tables and how an instant is written in a message belong to the crates `time-tz` and
`time`, and are arguments.

## Honest scope

`after` is in UTC, as its callers have it. Instants outside the years -9999 to 9999,
for which the crate `time` panics, are instants like others; dates outside them are
refused as there.
-/

namespace Omnion.Backup

open Sorting

/-! ### Dates and times -/

/-- An `OffsetDateTime` in UTC, in nanoseconds since the Unix epoch. -/
abbrev Moment := ℤ

def second : ℤ := 1000000000

def hour : ℤ := 3600 * second

def day : ℤ := 86400 * second

/-- A calendar date: its Julian day. -/
abbrev Date := ℤ

inductive Weekday where
  | monday | tuesday | wednesday | thursday | friday | saturday | sunday
  deriving DecidableEq

namespace Date

/-- `Date::from_julian_day`: the years -9999 to 9999. -/
def fromJulianDay (n : ℤ) : Option Date := if -1930999 ≤ n ∧ n ≤ 5373484 then some n else none

/-- `Date::weekday`. -/
def weekday (d : Date) : Weekday :=
  match d % 7 with
  | 0 => .monday
  | 1 => .tuesday
  | 2 => .wednesday
  | 3 => .thursday
  | 4 => .friday
  | 5 => .saturday
  | _ => .sunday

/-- `Date::day`: the day of the month. Years are counted from March here, so that the
leap day is the last. -/
def dayOfMonth (d : Date) : ℤ :=
  let dayOfEra := (d - 1721120) % 146097
  let yearOfEra := (dayOfEra - dayOfEra / 1460 + dayOfEra / 36524 - dayOfEra / 146096) / 365
  let dayOfYear := dayOfEra - (365 * yearOfEra + yearOfEra / 4 - yearOfEra / 100)
  let month := (5 * dayOfYear + 2) / 153
  dayOfYear - (153 * month + 2) / 5 + 1

/-- The last day of February 2024, a Thursday, and the first day of March. -/
example : dayOfMonth 2460370 = 29 ∧ weekday 2460370 = .thursday ∧ dayOfMonth 2460371 = 1 := by decide

end Date

/-- A time of day. -/
structure Time where
  nanos : ℤ
  nonneg : 0 ≤ nanos
  lt_day : nanos < day

namespace Moment

/-- `OffsetDateTime::new_utc`, with the time of day in nanoseconds. -/
def newUtc (date : Date) (nanos : ℤ) : Moment := (date - 2440588) * day + nanos

/-- `OffsetDateTime::to_julian_day`. -/
def toJulianDay (x : Moment) : ℤ := x / day + 2440588

/-- `OffsetDateTime::time`, in nanoseconds. -/
def time (x : Moment) : ℤ := x % day

end Moment

/-! ### Zones -/

/-- A time zone: its offset from UTC at each second since the Unix epoch, in seconds. -/
structure Zone where
  offset : ℤ → ℤ
  /-- Offsets are within the range of `UtcOffset`. -/
  bounded : ∀ t, -93599 ≤ offset t ∧ offset t ≤ 93599
  /-- A transition is less than a day. -/
  steps : ∀ t, offset t - offset (t - 1) < 86400 ∧ offset (t - 1) - offset t < 86400

namespace Zone

/-- `get_offset_utc`: the offset at an instant. -/
def getOffsetUtc (zone : Zone) (x : Moment) : ℤ := zone.offset (x / second)

/-- The offset at an instant, in nanoseconds. -/
def nanos (zone : Zone) (x : Moment) : ℤ := zone.getOffsetUtc x * second

end Zone

/-- `UtcOffset::from_whole_seconds`. -/
def fromWholeSeconds (seconds : ℤ) : Option ℤ :=
  if -93599 ≤ seconds ∧ seconds ≤ 93599 then some seconds else none

/-- The offset used when a candidate is not representable. -/
def baseOffset : ℤ := 0

/-- `at_offset`: the instant of a reading, given the offset that applies to it. -/
def atOffset (reading : Moment) (offset : ℤ) : Moment := reading - offset * second

/-- Keep the first of equal candidates. -/
def pushNew (out : List ℤ) (candidate : ℤ) : List ℤ :=
  if candidate ∈ out then out else out ++ [candidate]

/-- The offsets sampled for a reading: those in force at the reading taken as UTC, and
half a year either side. -/
def probes (zone : Zone) (reading : Moment) : List ℤ :=
  [-186, 0, 186].filterMap fun shiftDays =>
    (Date.fromJulianDay (reading.toJulianDay + shiftDays)).map fun date =>
      zone.getOffsetUtc (.newUtc date reading.time)

/-- `candidate_offsets`: the offsets a reading could plausibly carry, ascending. -/
def candidateOffsets (zone : Zone) (reading : Moment) : List ℤ :=
  let candidates := (probes zone reading).flatMap fun base =>
    [base, base + 3600, base - 3600].map fun seconds => (fromWholeSeconds seconds).getD baseOffset
  sortBy id (candidates.foldl pushNew [])

/-- The candidates' instants at which the zone does read `reading`. -/
def realInstants (zone : Zone) (reading : Moment) (candidates : List ℤ) : List Moment :=
  candidates.filterMap fun offset =>
    let instant := atOffset reading offset
    if zone.getOffsetUtc instant = offset then some instant else none

/-- `resolve_local`: the instant a reading refers to. -/
def resolveLocal (zone : Zone) (reading : Moment) : Moment :=
  let candidates := candidateOffsets zone reading
  match realInstants zone reading candidates with
  | [instant] => instant
  | [instant, instant'] => min instant instant'
  | [] =>
    match candidates.head?, candidates.getLast? with
    | some before, some after => if before < after then atOffset reading before else reading
    | _, _ => reading
  | instants => instants.min?.getD reading

/-! ### Cadences -/

/-- The module's error. -/
inductive BackupError where
  | invalid (message : String)
  deriving DecidableEq

/-- How far ahead the search looks before it gives up. -/
def maxLookaheadDays : ℕ := 40

/-- A schedule's own idea of when it runs. -/
structure Cadence where
  /-- `hourly`, `daily`, `weekly` or `monthly`. -/
  frequency : String
  atTime : Option Time := none
  /-- Local weekday, for `weekly` only. -/
  dayOfWeek : Option Weekday := none
  /-- Local day of the month, for `monthly` only. -/
  dayOfMonth : Option ℕ := none
  timezone : String

namespace Cadence

/-- The zone, or an error naming the string that is not a zone. -/
def zone (getByName : String → Option Zone) (c : Cadence) : Except BackupError Zone :=
  let name := Text.trim c.timezone
  if name.toLower = "utc" then
    match getByName "UTC" with
    | some zone => .ok zone
    | none => .error (.invalid "this build's timezone table has no UTC entry")
  else
    match getByName name with
    | some zone => .ok zone
    | none =>
      .error (.invalid (Text.debug name ++ " is not a timezone this build knows (use an IANA name such as "
        ++ "`Europe/Istanbul`)"))

/-- Whether the cadence fires on a local calendar date. -/
def firesOn (c : Cadence) (date : Date) : Bool :=
  match c.frequency with
  | "hourly" => true
  | "daily" => true
  | "weekly" => c.dayOfWeek = some date.weekday
  | "monthly" => date.dayOfMonth = (max 1 (min (c.dayOfMonth.getD 1) 28) : ℕ)
  | _ => true

/-- The days from `date` on, at most `days` of them: the first whose instant is after
`after`. -/
def search (zone : Zone) (c : Cadence) (time : Time) (after : Moment) : ℕ → ℤ → Option Moment
  | 0, _ => none
  | days + 1, n =>
    match Date.fromJulianDay n with
    | none => none
    | some date =>
      if c.firesOn date then
        let instant := resolveLocal zone (.newUtc date time.nanos)
        if after < instant then some instant else search zone c time after days (n + 1)
      else search zone c time after days (n + 1)

/-- The local date of an instant. -/
def localDate (zone : Zone) (x : Moment) : ℤ := Moment.toJulianDay (x + zone.nanos x)

/-- `next_after`, in a zone. -/
def nextIn (display : Moment → String) (zone : Zone) (c : Cadence) (after : Moment) :
    Except BackupError Moment :=
  if c.frequency = "hourly" then .ok (after - after % hour + hour)
  else
    match c.atTime with
    | none => .error (.invalid ("the " ++ c.frequency ++ " cadence needs a time of day"))
    | some time =>
      match search zone c time after maxLookaheadDays (localDate zone after) with
      | some instant => .ok instant
      | none =>
        .error (.invalid ("the " ++ c.frequency ++ " schedule has no next run within " ++ toString maxLookaheadDays
          ++ " days of " ++ display after))

/-- `next_after`: the first instant strictly after `after` at which the cadence fires. -/
def nextAfter (getByName : String → Option Zone) (display : Moment → String) (c : Cadence)
    (after : Moment) :
    Except BackupError Moment :=
  (c.zone getByName).bind fun zone => c.nextIn display zone after

end Cadence

end Omnion.Backup
