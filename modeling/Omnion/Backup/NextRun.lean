import Omnion.Backup.Cadence
import Mathlib.Data.List.Pairwise
import Mathlib.Order.Bounds.Basic
import Mathlib.Tactic.Linarith

/-!
# The next run of a schedule

`next_after` is to return the least instant after `after` at which the cadence fires,
where a local reading stands for the first instant that shows it, and one the clock
skips for the instant with the offset before the transition (`LocalTime.Denotes`).

`resolve_local` tries the offsets of three samples and their neighbours an hour away. It
answers right exactly when the offset the reading needs is among them and, for a reading
the clock skips, is the least of them: the neighbour an hour below the offset before the
transition is a candidate too whenever that offset was sampled.

## What is proved

* `nextAfter_meets_iff` — when `next_after` returns the least firing instant: the first day whose
  reading stands for an instant after `after` is one of the 40 from the local date of `after` on,
  the offset its reading needs is sampled, the readings of the days before it have passed, and no
  later day stands for an earlier instant. Where the offsets of the zone lie within 23 hours of
  each other it does so nowhere else; in a wider one a wrong offset may put another day's reading
  at that instant.
* `spring_forward` — the night the clocks of New York are put forward: a run at 02:30 is
  put at 04:30 local time.

## Honest scope

The firing instants of an hourly cadence are the hours of UTC, as the source has them.
-/

namespace Omnion.Backup

open Sorting LocalTime

variable {zone : Zone} {reading x after : Moment} {offset offset' : ℤ}

/-! ### Candidates -/

theorem Date.fromJulianDay_eq_some {n : ℤ} {date : Date} :
    Date.fromJulianDay n = some date ↔ (-1930999 ≤ n ∧ n ≤ 5373484) ∧ n = date := by
  unfold Date.fromJulianDay
  split <;> simp_all

theorem mem_pushNew {out : List ℤ} {candidate : ℤ} :
    offset ∈ pushNew out candidate ↔ offset ∈ out ∨ offset = candidate := by
  unfold pushNew
  split
  · exact ⟨.inl, fun h => h.elim id fun h => h ▸ ‹candidate ∈ out›⟩
  · simp

theorem mem_foldl_pushNew {candidates : List ℤ} : ∀ {out : List ℤ},
    offset ∈ candidates.foldl pushNew out ↔ offset ∈ out ∨ offset ∈ candidates := by
  induction candidates with
  | nil => simp
  | cons candidate rest ih =>
    intro out
    rw [List.foldl_cons, ih, mem_pushNew, List.mem_cons, or_assoc]

theorem mem_candidateOffsets : offset ∈ candidateOffsets zone reading ↔
    ∃ base ∈ probes zone reading, ∃ seconds, (seconds = base ∨ seconds = base + 3600 ∨ seconds = base - 3600) ∧
      offset = (fromWholeSeconds seconds).getD baseOffset := by
  simp only [candidateOffsets, mem_sortBy, mem_foldl_pushNew, List.mem_flatMap, List.mem_map, List.mem_cons,
    List.not_mem_nil, or_false, false_or, eq_comm]

theorem pairwise_candidateOffsets : (candidateOffsets zone reading).Pairwise (· ≤ ·) :=
  pairwise_sortBy id _

theorem exists_of_mem_probes (h : offset ∈ probes zone reading) :
    ∃ t, offset = zone.getOffsetUtc t := by
  obtain ⟨shiftDays, -, hsome⟩ := List.mem_filterMap.mp h
  obtain ⟨date, -, rfl⟩ := Option.map_eq_some_iff.mp hsome
  exact ⟨_, rfl⟩

theorem mem_probes (zone : Zone) {date : Date}
    (hdate : Date.fromJulianDay reading.toJulianDay = some date) :
    zone.getOffsetUtc reading ∈ probes zone reading := by
  obtain ⟨hrange, rfl⟩ := Date.fromJulianDay_eq_some.mp hdate
  refine List.mem_filterMap.mpr ⟨0, by simp, ?_⟩
  rw [Int.add_zero, hdate, Option.map_some]
  congr 2
  simp only [Moment.newUtc, Moment.toJulianDay, Moment.time, add_sub_cancel_right]
  exact Int.ediv_mul_add_emod reading day

theorem mem_candidateOffsets_of_probe {base : ℤ} (hbase : base ∈ probes zone reading) {seconds : ℤ}
    (hnear : seconds = base ∨ seconds = base + 3600 ∨ seconds = base - 3600)
    (hrange : -93599 ≤ seconds ∧ seconds ≤ 93599) : seconds ∈ candidateOffsets zone reading :=
  mem_candidateOffsets.mpr ⟨base, hbase, seconds, hnear, by simp [fromWholeSeconds, hrange]⟩

/-- A reading on a date has two candidates, so the first is below the last. -/
theorem candidateOffsets_ends (zone : Zone) {date : Date}
    (hdate : Date.fromJulianDay reading.toJulianDay = some date) :
    ∃ least greatest, (candidateOffsets zone reading).head? = some least ∧
      (candidateOffsets zone reading).getLast? = some greatest ∧ least < greatest := by
  have hpairwise := @pairwise_candidateOffsets zone reading
  have hprobe := mem_probes zone hdate
  have hbounded := zone.bounded (reading / second)
  obtain ⟨low, high, hlow, hhigh, hlt⟩ :
      ∃ low high, low ∈ candidateOffsets zone reading ∧ high ∈ candidateOffsets zone reading ∧ low < high := by
    have hbase := mem_candidateOffsets_of_probe hprobe (.inl rfl) hbounded
    by_cases hpositive : 0 < zone.getOffsetUtc reading
    · refine ⟨_, _, mem_candidateOffsets_of_probe hprobe (.inr (.inr rfl)) ?_, hbase, by omega⟩
      unfold Zone.getOffsetUtc at *
      omega
    · refine ⟨_, _, hbase, mem_candidateOffsets_of_probe hprobe (.inr (.inl rfl)) ?_, by omega⟩
      unfold Zone.getOffsetUtc at *
      omega
  have hne : candidateOffsets zone reading ≠ [] := List.ne_nil_of_mem hlow
  refine ⟨_, _, List.head?_eq_some_head hne, List.getLast?_eq_some_getLast hne, ?_⟩
  calc (candidateOffsets zone reading).head hne ≤ low := hpairwise.rel_head hlow
    _ < high := hlt
    _ ≤ (candidateOffsets zone reading).getLast hne := hpairwise.rel_getLast hhigh

/-! ### Resolving a reading -/

/-- A zone reads `reading` at the instants of the reading with the offset in force there. -/
theorem clock_eq_iff : clock zone.nanos x = reading ↔ x = atOffset reading (zone.getOffsetUtc x) :=
  eq_sub_iff_add_eq.symm

theorem atOffset_le_iff : atOffset reading offset ≤ atOffset reading offset' ↔ offset' ≤ offset := by
  rw [atOffset, atOffset, sub_le_sub_iff_left]
  exact Int.mul_le_mul_iff_of_pos_right (by decide)

theorem atOffset_injective (h : atOffset reading offset = atOffset reading offset') :
    offset = offset' :=
  le_antisymm (atOffset_le_iff.mp h.ge) (atOffset_le_iff.mp h.le)

theorem mem_realInstants {candidates : List ℤ} : x ∈ realInstants zone reading candidates ↔
    clock zone.nanos x = reading ∧ zone.getOffsetUtc x ∈ candidates := by
  simp only [realInstants, List.mem_filterMap]
  constructor
  · rintro ⟨candidate, hmem, hreal⟩
    split at hreal
    · cases hreal
      rename_i hoffset
      exact ⟨clock_eq_iff.mpr (by rw [hoffset]), by rwa [hoffset]⟩
    · contradiction
  · rintro ⟨hclock, hmem⟩
    refine ⟨_, hmem, ?_⟩
    rw [← clock_eq_iff.mp hclock, if_pos rfl]

theorem resolveLocal_isLeast (hx : x ∈ realInstants zone reading (candidateOffsets zone reading)) :
    IsLeast {y | y ∈ realInstants zone reading (candidateOffsets zone reading)} (resolveLocal zone reading) := by
  unfold resolveLocal
  dsimp only
  generalize realInstants zone reading (candidateOffsets zone reading) = instants at hx
  obtain ⟨least, hleast⟩ : ∃ least, instants.min? = some least :=
    Option.ne_none_iff_exists'.mp fun hnone => by simp_all [List.min?_eq_none_iff]
  have hmin := List.min?_eq_some_iff.mp hleast
  split
  · exact ⟨List.mem_singleton_self _, fun y hy => (List.mem_singleton.mp hy).ge⟩
  · rename_i instant instant'
    refine ⟨?_, fun y hy => ?_⟩
    · rcases min_choice instant instant' with h | h <;> simp [h]
    · rcases List.mem_pair.mp hy with rfl | rfl
      · exact min_le_left _ _
      · exact min_le_right _ _
  · contradiction
  · rw [hleast, Option.getD_some]
    exact hmin

/-- The offset `resolve_local` takes for a reading. -/
inductive Zone.Takes (zone : Zone) (reading : Moment) (offset : ℤ) : Prop where
  /-- It survives the round trip, at the first instant at which a candidate does. -/
  | survivor : offset ∈ candidateOffsets zone reading →
      zone.getOffsetUtc (atOffset reading offset) = offset →
      (∀ other ∈ candidateOffsets zone reading, zone.getOffsetUtc (atOffset reading other) = other →
        other ≤ offset) → Takes zone reading offset
  /-- No candidate survives, and it is the least. -/
  | least : (∀ other ∈ candidateOffsets zone reading, zone.getOffsetUtc (atOffset reading other) ≠ other) →
      (candidateOffsets zone reading).head? = some offset → Takes zone reading offset

theorem Zone.Takes.unique (h : zone.Takes reading offset) (h' : zone.Takes reading offset') :
    offset = offset' := by
  cases h with
  | survivor hmem hreal hmax =>
    cases h' with
    | survivor hmem' hreal' hmax' => exact le_antisymm (hmax' _ hmem hreal) (hmax _ hmem' hreal')
    | least hnone hhead => exact absurd hreal (hnone _ hmem)
  | least hnone hhead =>
    cases h' with
    | survivor hmem' hreal' hmax' => exact absurd hreal' (hnone _ hmem')
    | least hnone' hhead' => exact Option.some.inj (hhead.symm.trans hhead')

theorem Zone.Takes.mem (h : zone.Takes reading offset) : offset ∈ candidateOffsets zone reading := by
  cases h with
  | survivor hmem _ _ => exact hmem
  | least _ hhead => exact List.mem_of_mem_head? hhead

/-- The instant of a reading on a date is taken with the offset of `Takes`. -/
theorem exists_takes (zone : Zone) {date : Date}
    (hdate : Date.fromJulianDay reading.toJulianDay = some date) :
    ∃ offset, zone.Takes reading offset ∧ resolveLocal zone reading = atOffset reading offset := by
  cases hinstants : realInstants zone reading (candidateOffsets zone reading) with
  | nil =>
    obtain ⟨least, greatest, hhead, hlast, hlt⟩ := candidateOffsets_ends zone hdate
    refine ⟨least, .least (fun other hother hreal => ?_) hhead, ?_⟩
    · have hmem : atOffset reading other ∈ realInstants zone reading (candidateOffsets zone reading) :=
        mem_realInstants.mpr ⟨clock_eq_iff.mpr (by rw [hreal]), by rwa [hreal]⟩
      simp [hinstants] at hmem
    · simp [resolveLocal, hinstants, hhead, hlast, hlt]
  | cons instant rest =>
    obtain ⟨hmem, hle⟩ :=
      resolveLocal_isLeast (x := instant) (by rw [hinstants]; exact List.mem_cons_self)
    obtain ⟨hclock, hoffset⟩ := mem_realInstants.mp hmem
    have hat := clock_eq_iff.mp hclock
    refine ⟨_, .survivor hoffset (by rw [← hat]) fun other hother hreal => ?_, hat⟩
    have := hle (mem_realInstants.mpr ⟨clock_eq_iff.mpr (by rw [hreal]), by rwa [hreal]⟩ :
      atOffset reading other ∈ realInstants zone reading (candidateOffsets zone reading))
    rw [hat] at this
    exact atOffset_le_iff.mp this

theorem resolveLocal_eq_atOffset {date : Date}
    (hdate : Date.fromJulianDay reading.toJulianDay = some date) :
    resolveLocal zone reading = atOffset reading offset ↔ zone.Takes reading offset := by
  obtain ⟨taken, htakes, heq⟩ := exists_takes zone hdate
  constructor
  · intro h
    rwa [← atOffset_injective (heq.symm.trans h)]
  · intro h
    rw [heq, htakes.unique h]

/-- The offset a reading needs is a candidate. Where the clock skips the reading it is the
least of them. -/
inductive Zone.Sampled (zone : Zone) (reading : Moment) : Prop where
  /-- The offset in force when the clock first shows it. -/
  | read {t : Moment} : clock zone.nanos t = reading → (∀ u, clock zone.nanos u = reading → t ≤ u) →
      zone.getOffsetUtc t ∈ candidateOffsets zone reading → Sampled zone reading
  /-- The offset in force before the clock passes it. -/
  | skipped {t : Moment} : (∀ u, clock zone.nanos u ≠ reading) → reading < clock zone.nanos t →
      (∀ u, u < t → clock zone.nanos u < reading) →
      (candidateOffsets zone reading).head? = some (zone.getOffsetUtc (t - 1)) → Sampled zone reading

/-- `resolve_local` answers right exactly the readings whose offset is sampled. -/
theorem resolveLocal_eq_iff {date : Date} (hdate : Date.fromJulianDay reading.toJulianDay = some date)
    (hx : Denotes zone.nanos reading x) : resolveLocal zone reading = x ↔ zone.Sampled reading := by
  constructor
  · intro heq
    cases hx with
    | read ht hfirst =>
      refine .read ht hfirst (Zone.Takes.mem ((resolveLocal_eq_atOffset hdate).mp ?_))
      rw [heq]
      exact clock_eq_iff.mp ht
    | skipped hnever hpast hbefore =>
      cases (resolveLocal_eq_atOffset hdate).mp heq with
      | survivor _ hreal _ => exact absurd (clock_eq_iff.mpr (by rw [hreal])) (hnever _)
      | least _ hhead => exact .skipped hnever hpast hbefore hhead
  · intro hsampled
    cases hsampled with
    | read ht hfirst hmem =>
      have hat := clock_eq_iff.mp ht
      rw [hx.unique (.read ht hfirst), hat, resolveLocal_eq_atOffset hdate]
      apply Zone.Takes.survivor hmem (by rw [← hat])
      intro other _ hreal
      have hle := hfirst (atOffset reading other) (clock_eq_iff.mpr (by rw [hreal]))
      rw [hat] at hle
      exact atOffset_le_iff.mp hle
    | skipped hnever hpast hbefore hhead =>
      rw [hx.unique (.skipped hnever hpast hbefore)]
      refine (resolveLocal_eq_atOffset hdate).mpr (.least (fun other _ hreal => ?_) hhead)
      exact hnever (atOffset reading other) (clock_eq_iff.mpr (by rw [hreal]))

/-! ### The search -/

/-- A time of day on a date: the reading the clock is to show. -/
def Time.on (time : Time) (date : Date) : Moment := .newUtc date time.nanos

theorem Time.toJulianDay_on (time : Time) (date : Date) : (time.on date).toJulianDay = date := by
  have hnonneg := time.nonneg
  have hlt := time.lt_day
  unfold Time.on Moment.newUtc Moment.toJulianDay day second at *
  omega

variable {time : Time} {date : Date}

/-- The clock shows the reading with the sampled offset. -/
def Zone.Shows (zone : Zone) (reading : Moment) (offset : ℤ) : Prop :=
  offset ∈ candidateOffsets zone reading ∧ clock zone.nanos (atOffset reading offset) = reading

/-- By `after` the clock has shown the reading with a sampled offset; or it shows it with none of
them, and the least puts it there. -/
def Zone.Passed (zone : Zone) (reading after : Moment) : Prop :=
  (∃ offset, zone.Shows reading offset ∧ atOffset reading offset ≤ after) ∨
    (∀ offset, ¬ zone.Shows reading offset) ∧
      ∃ least, (candidateOffsets zone reading).head? = some least ∧ atOffset reading least ≤ after

theorem shows_iff : zone.Shows reading offset ↔
    offset ∈ candidateOffsets zone reading ∧ zone.getOffsetUtc (atOffset reading offset) = offset := by
  refine and_congr_right fun _ => clock_eq_iff.trans ⟨fun h => (atOffset_injective h).symm, fun h => by rw [h]⟩

theorem passed_iff (hdate : Date.fromJulianDay reading.toJulianDay = some date) :
    zone.Passed reading after ↔ resolveLocal zone reading ≤ after := by
  obtain ⟨taken, htakes, heq⟩ := exists_takes zone hdate
  simp only [Zone.Passed, shows_iff]
  rw [heq]
  cases htakes with
  | survivor hmem hreal hmax =>
    constructor
    · rintro (⟨offset, ⟨hoffset, hshown⟩, hle⟩ | ⟨hnone, -⟩)
      · exact (atOffset_le_iff.mpr (hmax offset hoffset hshown)).trans hle
      · exact absurd ⟨hmem, hreal⟩ (hnone taken)
    · exact fun hle => .inl ⟨taken, ⟨hmem, hreal⟩, hle⟩
  | least hnone hhead =>
    constructor
    · rintro (⟨offset, ⟨hoffset, hshown⟩, -⟩ | ⟨-, least, hleast, hle⟩)
      · exact absurd hshown (hnone offset hoffset)
      · rwa [Option.some.inj (hhead.symm.trans hleast)]
    · exact fun hle => .inr ⟨fun offset h => hnone offset h.1 h.2, taken, hhead, hle⟩

namespace Cadence

variable {c : Cadence} {start : ℤ} {days : ℕ}

/-- The search from `start` comes to `date`, a day on which the cadence fires: the readings
of the days before it have passed. -/
structure Reaches (c : Cadence) (zone : Zone) (time : Time) (after : Moment) (days : ℕ)
    (start date : ℤ) : Prop where
  fires : c.firesOn date
  valid_start : Date.fromJulianDay start = some start
  valid : Date.fromJulianDay date = some date
  start_le : start ≤ date
  lt : date < start + days
  passed : ∀ earlier, start ≤ earlier → earlier < date → c.firesOn earlier →
    zone.Passed (time.on earlier) after

theorem Reaches.valid_on (h : c.Reaches zone time after days start date) :
    Date.fromJulianDay (time.on date).toJulianDay = some date := by
  rw [Time.toJulianDay_on, h.valid]

theorem reaches_succ (hstart : Date.fromJulianDay start = some start) :
    c.Reaches zone time after (days + 1) start date ↔
      date = start ∧ c.firesOn start ∨
        (c.firesOn start → zone.Passed (time.on start) after) ∧ c.Reaches zone time after days (start + 1) date := by
  have hrange := (Date.fromJulianDay_eq_some.mp hstart).1
  constructor
  · intro h
    have hlt := h.lt
    rcases h.start_le.eq_or_lt with rfl | hlater
    · exact .inl ⟨rfl, h.fires⟩
    · have hdate := (Date.fromJulianDay_eq_some.mp h.valid).1
      refine .inr ⟨h.passed start le_rfl hlater, h.fires, ?_, h.valid, hlater, by omega, fun earlier hle => ?_⟩
      · exact Date.fromJulianDay_eq_some.mpr ⟨by omega, rfl⟩
      · exact h.passed earlier (by omega)
  · rintro (⟨rfl, hfires⟩ | ⟨hpassed, h⟩)
    · exact ⟨hfires, hstart, hstart, le_rfl, by omega, fun earlier hle hlt => absurd hlt (not_lt.mpr hle)⟩
    · have hle := h.start_le
      have hlt := h.lt
      refine ⟨h.fires, hstart, h.valid, by omega, by omega, fun earlier hearlier hlater hfires => ?_⟩
      rcases hearlier.eq_or_lt with rfl | hgt
      · exact hpassed hfires
      · exact h.passed earlier hgt hlater hfires

theorem search_succ (hstart : Date.fromJulianDay start = some start) :
    search zone c time after (days + 1) start =
      if c.firesOn start ∧ after < resolveLocal zone (time.on start) then
        some (resolveLocal zone (time.on start))
      else search zone c time after days (start + 1) := by
  rw [search, hstart]
  by_cases hfires : c.firesOn start <;> simp [hfires, Time.on]

/-- The search answers the first firing day whose instant is after `after`. -/
theorem search_eq_some_iff : ∀ {days : ℕ} {start : ℤ}, search zone c time after days start = some x ↔
    ∃ date, c.Reaches zone time after days start date ∧ resolveLocal zone (time.on date) = x ∧ after < x := by
  intro days
  induction days with
  | zero =>
    intro start
    constructor
    · intro h
      cases h
    · rintro ⟨date, h, -⟩
      exact absurd h.lt (by have := h.start_le; omega)
  | succ days ih =>
    intro start
    cases hstart : Date.fromJulianDay start with
    | none =>
      constructor
      · intro h
        simp [search, hstart] at h
      · rintro ⟨date, h, -⟩
        exact absurd h.valid_start (by simp [hstart])
    | some first =>
      obtain ⟨hrange, rfl⟩ := Date.fromJulianDay_eq_some.mp hstart
      have hdate : Date.fromJulianDay (time.on start).toJulianDay = some start := by
        rw [Time.toJulianDay_on, hstart]
      have hpassed : zone.Passed (time.on start) after ↔ _ := passed_iff hdate
      simp only [search_succ hstart, reaches_succ hstart]
      by_cases hnow : c.firesOn start ∧ after < resolveLocal zone (time.on start)
      · rw [if_pos hnow, Option.some.injEq]
        constructor
        · rintro rfl
          exact ⟨start, .inl ⟨rfl, hnow.1⟩, rfl, hnow.2⟩
        · rintro ⟨date, ⟨rfl, -⟩ | ⟨hearlier, -⟩, heq, -⟩
          · exact heq
          · exact absurd (hpassed.mp (hearlier hnow.1)) (not_le.mpr hnow.2)
      · rw [if_neg hnow, ih]
        constructor
        · rintro ⟨date, h, heq⟩
          exact ⟨date, .inr ⟨fun hfires => hpassed.mpr (not_lt.mp fun hlt => hnow ⟨hfires, hlt⟩), h⟩, heq⟩
        · rintro ⟨date, ⟨rfl, hfires⟩ | ⟨-, h⟩, heq, hlt⟩
          · exact absurd ⟨hfires, heq ▸ hlt⟩ hnow
          · exact ⟨date, h, heq, hlt⟩

/-! ### What a cadence means -/

/-- The cadence fires at an instant: on the hour, or where the reading of one of its days
says. -/
def FiresAt (c : Cadence) (zone : Zone) (x : Moment) : Prop :=
  if c.frequency = "hourly" then x % hour = 0
  else ∃ time date, c.atTime = some time ∧ Date.fromJulianDay date = some date ∧ c.firesOn date ∧
    Denotes zone.nanos (time.on date) x

/-- The least firing instant after `after`. -/
def IsNext (c : Cadence) (zone : Zone) (after x : Moment) : Prop :=
  IsLeast {y | c.FiresAt zone y ∧ after < y} x

/-- `next_after` returns the least firing instant after `after`. -/
def Meets (getByName : String → Option Zone) (display : Moment → String) (c : Cadence)
    (after : Moment) : Prop :=
  ∀ zone, c.zone getByName = .ok zone → ∀ x, c.IsNext zone after x → c.nextAfter getByName display after = .ok x

theorem isLeast_multiple_after {n : ℤ} (hn : 0 < n) (a : ℤ) :
    IsLeast {y | y % n = 0 ∧ a < y} (a - a % n + n) := by
  have hsplit := Int.mul_ediv_add_emod a n
  have hlt := Int.emod_lt_of_pos a hn
  have hnext : a - a % n + n = n * (a / n + 1) := by
    rw [mul_add, mul_one]
    omega
  refine ⟨⟨by rw [hnext, Int.mul_emod_right], by omega⟩, ?_⟩
  rintro y ⟨hmultiple, hafter⟩
  obtain ⟨k, rfl⟩ := Int.dvd_of_emod_eq_zero hmultiple
  have hk : a / n < k := Int.ediv_lt_of_lt_mul hn (by rwa [mul_comm])
  rw [hnext]
  exact Int.mul_le_mul_of_nonneg_left hk hn.le

theorem isNext_hourly (hf : c.frequency = "hourly") :
    c.IsNext zone after (after - after % hour + hour) := by
  simp only [IsNext, FiresAt, if_pos hf]
  exact isLeast_multiple_after (by decide) after

/-- What `next_after` returns in a zone. -/
theorem nextIn_eq_ok_iff {display : Moment → String} (hf : c.frequency ≠ "hourly") :
    c.nextIn display zone after = .ok x ↔ ∃ time date, c.atTime = some time ∧
      c.Reaches zone time after maxLookaheadDays (localDate zone after) date ∧
        resolveLocal zone (time.on date) = x ∧ after < x := by
  rw [nextIn, if_neg hf]
  cases htime : c.atTime with
  | none => simp
  | some time =>
    have hsearch : search zone c time after maxLookaheadDays (localDate zone after) = some x ↔ _ :=
      search_eq_some_iff
    cases hfound : search zone c time after maxLookaheadDays (localDate zone after) with
    | none =>
      rw [hfound] at hsearch
      simpa [hfound] using hsearch
    | some instant =>
      rw [hfound] at hsearch
      simpa [hfound] using hsearch

/-! ### The condition -/

/-- The first day on which the cadence fires and whose reading stands for an instant after `after`. -/
structure FirstDay (c : Cadence) (zone : Zone) (time : Time) (after : Moment) (date : ℤ) (x : Moment) : Prop where
  fires : c.firesOn date
  valid : Date.fromJulianDay date = some date
  denotes : Denotes zone.nanos (time.on date) x
  lt : after < x
  first : ∀ earlier < date, c.firesOn earlier → Date.fromJulianDay earlier = some earlier →
    ∀ y, Denotes zone.nanos (time.on earlier) y → y ≤ after

/-- The samples serve the first day, of the 40 from the local date of `after` on. -/
structure Served (c : Cadence) (zone : Zone) (time : Time) (after : Moment) (date : ℤ) (x : Moment) : Prop where
  valid_start : Date.fromJulianDay (localDate zone after) = some (localDate zone after)
  start_le : localDate zone after ≤ date
  lt : date < localDate zone after + maxLookaheadDays
  /-- The offset its reading needs is sampled. -/
  sampled : zone.Sampled (time.on date)
  /-- The readings of the days before it have passed. -/
  passed : ∀ earlier, localDate zone after ≤ earlier → earlier < date → c.firesOn earlier →
    zone.Passed (time.on earlier) after
  /-- No later day stands for an earlier instant. -/
  ordered : ∀ later, date < later → c.firesOn later → Date.fromJulianDay later = some later →
    ∀ y, Denotes zone.nanos (time.on later) y → x ≤ y

/-- The condition on the readings of the zone. -/
def Regular (c : Cadence) (zone : Zone) (after : Moment) : Prop :=
  c.frequency ≠ "hourly" → ∀ time date x, c.atTime = some time → c.FirstDay zone time after date x →
    c.Served zone time after date x

/-- The days are bounded from below, so of those that fire after `after` one is the first. -/
theorem exists_firstDay (hf : c.frequency ≠ "hourly") (hfires : c.FiresAt zone x) (hlater : after < x) :
    ∃ time date y, c.atTime = some time ∧ c.FirstDay zone time after date y := by
  rw [FiresAt, if_neg hf] at hfires
  obtain ⟨time, date, htime, hvalid, hfires, hdenotes⟩ := hfires
  obtain ⟨first, ⟨y, hvalidFirst, hfiresFirst, hdenotesFirst, hlt⟩, hleast⟩ := Int.exists_least_of_bdd
    (P := fun d : ℤ => ∃ y, Date.fromJulianDay d = some d ∧ c.firesOn d ∧ Denotes zone.nanos (time.on d) y ∧ after < y)
    ⟨-1930999, fun d hd => by
      obtain ⟨y, hvalid, -⟩ := hd
      exact (Date.fromJulianDay_eq_some.mp hvalid).1.1⟩ ⟨date, x, hvalid, hfires, hdenotes, hlater⟩
  refine ⟨time, first, y, htime, hfiresFirst, hvalidFirst, hdenotesFirst, hlt,
    fun earlier hearlier hfires hvalid z hz => ?_⟩
  by_contra hafter
  exact absurd (hleast earlier ⟨z, hvalid, hfires, hz, not_le.mp hafter⟩) (not_le.mpr hearlier)

/-- Where the later days are in order, the first day has the next firing instant. -/
theorem FirstDay.isNext (hf : c.frequency ≠ "hourly") (htime : c.atTime = some time)
    (h : c.FirstDay zone time after date x)
    (hordered : ∀ later, date < later → c.firesOn later → Date.fromJulianDay later = some later →
      ∀ y, Denotes zone.nanos (time.on later) y → x ≤ y) : c.IsNext zone after x := by
  simp only [IsNext, FiresAt, if_neg hf]
  refine ⟨⟨⟨time, date, htime, h.valid, h.fires, h.denotes⟩, h.lt⟩, ?_⟩
  rintro y ⟨⟨time', other, htime', hvalid, hfires, hy⟩, hafter⟩
  obtain rfl := Option.some.inj (htime.symm.trans htime')
  rcases lt_trichotomy other date with hlt | rfl | hlt
  · exact absurd hafter (not_lt.mpr (h.first other hlt hfires hvalid y hy))
  · exact (h.denotes.unique hy).le
  · exact hordered other hlt hfires hvalid y hy

theorem Served.reaches (hfirst : c.FirstDay zone time after date x) (h : c.Served zone time after date x) :
    c.Reaches zone time after maxLookaheadDays (localDate zone after) date :=
  ⟨hfirst.fires, h.valid_start, hfirst.valid, h.start_le, h.lt, h.passed⟩

theorem Regular.nextIn {display : Moment → String} (h : c.Regular zone after) (hx : c.IsNext zone after x) :
    c.nextIn display zone after = .ok x := by
  by_cases hf : c.frequency = "hourly"
  · rw [Cadence.nextIn, if_pos hf, hx.unique (isNext_hourly hf)]
  obtain ⟨time, date, y, htime, hfirst⟩ := exists_firstDay hf hx.1.1 hx.1.2
  have hserved := h hf time date y htime hfirst
  obtain rfl := (hfirst.isNext hf htime hserved.ordered).unique hx
  have hreaches := hserved.reaches hfirst
  have hresolve := (resolveLocal_eq_iff hreaches.valid_on hfirst.denotes).mpr hserved.sampled
  exact (nextIn_eq_ok_iff hf).mpr ⟨time, date, htime, hreaches, hresolve, hfirst.lt⟩

end Cadence

/-! ### Narrow zones -/

/-- The offsets of a zone lie within 23 hours of each other, an hour inside the range of
`UtcOffset`. -/
structure Zone.Narrow (zone : Zone) : Prop where
  inside : ∀ t, -89999 ≤ zone.offset t ∧ zone.offset t ≤ 89999
  span : ∀ s t, zone.offset s - zone.offset t < 82800

theorem eq_of_day_mul {a b seconds : ℤ} (h : (a - b) * day = seconds * second)
    (hseconds : -86400 < seconds ∧ seconds < 86400) : a = b := by
  unfold day second at h
  omega

/-- In a narrow zone no offset taken puts the reading of a day at the instant of another. -/
theorem Zone.Narrow.eq_of_denotes (h : zone.Narrow) {other : Date}
    (htakes : zone.Takes (time.on date) offset)
    (hx : Denotes zone.nanos (time.on other) (atOffset (time.on date) offset)) : other = date := by
  obtain ⟨base, hbase, seconds, hnear, rfl⟩ := mem_candidateOffsets.mp htakes.mem
  obtain ⟨s, rfl⟩ := exists_of_mem_probes hbase
  obtain ⟨u, hat⟩ := hx.exists_offset
  have hinside := h.inside (s / second)
  have hbelow := h.span (s / second) (u / second)
  have habove := h.span (u / second) (s / second)
  have hvalid : -93599 ≤ seconds ∧ seconds ≤ 93599 := by
    unfold Zone.getOffsetUtc at hnear
    omega
  have hdays : ((other : ℤ) - date) * day = (zone.offset (u / second) - seconds) * second := by
    simp only [fromWholeSeconds, hvalid, and_self, if_true, Option.getD_some, atOffset, Time.on, Moment.newUtc,
      Zone.nanos, Zone.getOffsetUtc] at hat
    linarith
  unfold Zone.getOffsetUtc at hnear
  exact eq_of_day_mul hdays ⟨by omega, by omega⟩

theorem Zone.Narrow.lt (h : zone.Narrow) {later : Date} {y : Moment} (hlt : date < later)
    (hx : Denotes zone.nanos (time.on date) x) (hy : Denotes zone.nanos (time.on later) y) : x < y := by
  obtain ⟨u, rfl⟩ := hx.exists_offset
  obtain ⟨v, rfl⟩ := hy.exists_offset
  have hspan := h.span (v / second) (u / second)
  have hdays := Int.add_one_le_iff.mpr hlt
  simp only [Zone.nanos, Zone.getOffsetUtc, Time.on, Moment.newUtc]
  unfold Moment day second at *
  omega

namespace Cadence

variable {c : Cadence}

theorem regular_of_nextIn {display : Moment → String} (hnarrow : zone.Narrow)
    (h : ∀ x, c.IsNext zone after x → c.nextIn display zone after = .ok x) : c.Regular zone after := by
  intro hf time date x htime hfirst
  have hordered : ∀ later, date < later → c.firesOn later → Date.fromJulianDay later = some later →
      ∀ y, Denotes zone.nanos (time.on later) y → x ≤ y :=
    fun later hlt _ _ y hy => (hnarrow.lt hlt hfirst.denotes hy).le
  have hnext := hfirst.isNext hf htime hordered
  obtain ⟨time', found, htime', hreaches, hresolve, -⟩ := (nextIn_eq_ok_iff hf).mp (h x hnext)
  obtain rfl := Option.some.inj (htime.symm.trans htime')
  -- the search comes to the first day, since no offset puts another at its instant
  obtain ⟨offset, htakes, heq⟩ := exists_takes zone hreaches.valid_on
  have hdenotes := hfirst.denotes
  rw [← hresolve, heq] at hdenotes
  obtain rfl := hnarrow.eq_of_denotes htakes hdenotes
  exact ⟨hreaches.valid_start, hreaches.start_le, hreaches.lt,
    (resolveLocal_eq_iff hreaches.valid_on hfirst.denotes).mp hresolve, hreaches.passed, hordered⟩

/-- **The condition**: `next_after` returns the least firing instant where the readings of the
zone are regular, and in a narrow zone nowhere else. -/
theorem nextAfter_meets_iff (getByName : String → Option Zone) (display : Moment → String) (c : Cadence)
    (after : Moment) :
    ((∀ zone, c.zone getByName = .ok zone → c.Regular zone after) → c.Meets getByName display after) ∧
      ∀ zone, c.zone getByName = .ok zone → zone.Narrow →
        (c.Meets getByName display after ↔ c.Regular zone after) := by
  have hmeets : ∀ zone, c.zone getByName = .ok zone → (c.Meets getByName display after ↔
      ∀ x, c.IsNext zone after x → c.nextIn display zone after = .ok x) := by
    intro zone hzone
    simp only [Meets, nextAfter, hzone, Except.ok.injEq, forall_eq']
    rfl
  refine ⟨fun hregular zone hzone => (hmeets zone hzone).mpr (fun x hx => (hregular zone hzone).nextIn hx) zone hzone,
    fun zone hzone hnarrow => (hmeets zone hzone).trans ⟨regular_of_nextIn hnarrow, fun h x hx => h.nextIn hx⟩⟩

end Cadence

/-! ### The night the clocks are put forward -/

/-- New York around 2026-03-08T07:00Z: five hours behind UTC before, four after. -/
def newYork : Zone where
  offset t := if t < 1772953200 then -18000 else -14400
  bounded t := by split <;> omega
  steps t := by split <;> split <;> omega

/-- Every day at 02:30. -/
def halfPastTwo : Cadence where
  frequency := "daily"
  atTime := some ⟨9000 * second, by decide, by decide⟩
  timezone := "America/New_York"

theorem newYork_nanos (u : ℤ) :
    u < 1772953200 * second ∧ newYork.nanos u = -18000 * second ∨
      1772953200 * second ≤ u ∧ newYork.nanos u = -14400 * second := by
  simp only [Zone.nanos, Zone.getOffsetUtc, newYork]
  split
  · exact .inl ⟨by unfold second at *; omega, rfl⟩
  · exact .inr ⟨by unfold second at *; omega, rfl⟩

theorem newYork_denotes :
    Denotes newYork.nanos (Moment.newUtc 2461108 (9000 * second)) (1772955000 * second) := by
  have hbefore := newYork_nanos (1772953200 * second - 1)
  have hskipped : Denotes newYork.nanos (Moment.newUtc 2461108 (9000 * second))
      (Moment.newUtc 2461108 (9000 * second) - newYork.nanos (1772953200 * second - 1)) := by
    refine .skipped (fun u hu => ?_) ?_ fun u hu => ?_
    · have := newYork_nanos u
      unfold clock Moment.newUtc day second at *
      omega
    · have := newYork_nanos (1772953200 * second)
      unfold clock Moment.newUtc day second at *
      omega
    · have := newYork_nanos u
      unfold clock Moment.newUtc day second at *
      omega
  convert hskipped using 1
  unfold Moment.newUtc day second at *
  omega

theorem halfPastTwo_isNext :
    halfPastTwo.IsNext newYork (1772884800 * second) (1772955000 * second) := by
  refine ⟨⟨?_, by decide⟩, ?_⟩
  · exact ⟨_, 2461108, rfl, rfl, rfl, newYork_denotes⟩
  · rintro y ⟨⟨time, (date : ℤ), htime, -, -, hy⟩, hafter⟩
    cases htime
    change Denotes newYork.nanos (Moment.newUtc date (9000 * second)) y at hy
    by_cases hsame : date = 2461108
    · subst hsame
      exact (hy.unique newYork_denotes).ge
    · obtain ⟨u, rfl⟩ := hy.exists_offset
      have := newYork_nanos u
      unfold Moment Moment.newUtc day second at *
      omega

/-- **A run on the night the clocks are put forward**: it is put at 04:30 local time. -/
theorem spring_forward :
    halfPastTwo.nextAfter (fun _ => some newYork) (fun _ => "") (1772884800 * second) = .ok (1772958600 * second) ∧
      ¬ halfPastTwo.Meets (fun _ => some newYork) (fun _ => "") (1772884800 * second) := by
  have hzone : halfPastTwo.zone (fun _ => some newYork) = .ok newYork := by
    unfold Cadence.zone
    dsimp only
    split <;> rfl
  have hnext : halfPastTwo.nextAfter (fun _ => some newYork) (fun _ => "") (1772884800 * second) =
      .ok (1772958600 * second) := by
    rw [Cadence.nextAfter, hzone]
    rfl
  refine ⟨hnext, fun hmeets => ?_⟩
  have heq := hnext.symm.trans (hmeets newYork hzone _ halfPastTwo_isNext)
  exact absurd (Except.ok.inj heq) (by decide)

end Omnion.Backup
