import Mathlib.Data.Rat.Defs
import Omnion.Core.Text
import Omnion.Library.Run
import Omnion.Library.Table

/-!
# The breach ledger

The second half of `apply_policy` in `crates/health/src/registry.rs`, with `breach_window`, `record_breach` and
`clear_breach` of `incidents.rs`: a sample over its metric's critical line is counted in the row of the metric and
the 15-minute window, and any other sample of a metric with a threshold clears that row.

## The model

A reading is a rational number, or none of the finite ones. Any number of passes run next to each other, one sample
a step. A pass reads the clock once; the clock of a clear is its statement's. Each pass that ends leaves a record of
what it has read and of the ledger at that moment; what it announces are the checks it returns that are first in
their window.

## What is proved

* `run_ledger` — in every run whose steps are `Undisturbed`, a window of a metric is announced once at most, a
  pass that has read a critical sample leaves the metric with an open row, and one that has read the metric without
  one leaves it with none.
* `later_window` — a recovery in a later window leaves the row open.

## Honest scope

The thresholds stay as they are (a save of the settings empties the ledger). A pass begins here, when its incidents
have been dealt with. The bound of 31 bits on a row's counter is left out.
-/

namespace Omnion.Health

open Transition

/-- A finite reading, or none. -/
abbrev Value := Option ℚ

/-- Which way a threshold is crossed. -/
inductive Direction where
  | above
  | below

/-- The words a threshold puts a value in. -/
inductive Level where
  | degraded
  | down
  deriving DecidableEq

/-- A warn and a critical limit. -/
structure Threshold where
  warn : ℚ
  crit : ℚ
  direction : Direction

/-- Which word this pair puts the value in. -/
def Threshold.classify (threshold : Threshold) : Value → Option Level
  | none => none
  | some value =>
    match threshold.direction with
    | .below =>
      if value ≤ threshold.crit then some .down else if value ≤ threshold.warn then some .degraded else none
    | .above =>
      if threshold.crit ≤ value then some .down else if threshold.warn ≤ value then some .degraded else none

/-- The stored thresholds, by metric. -/
abbrev Thresholds := String → Option Threshold

/-- A reading of a metric. -/
structure Sample where
  service : String
  metric : String
  value : Value
  deriving DecidableEq

/-- How long a window is (`BREACH_WINDOW_SECONDS`). -/
def breachWindowSeconds : ℤ := 900

/-- The window a moment belongs to. -/
def breachWindow (moment : Instant) : Instant :=
  moment / 1000000 / breachWindowSeconds * breachWindowSeconds * 1000000

/-- A row of `health_breaches`. -/
structure Breach where
  metric : String
  windowStart : Instant
  /-- The value that crossed the line, -/
  value : ℚ
  /-- and the limit it crossed. -/
  critLimit : ℚ
  /-- How many runs have stayed over the line inside this window. -/
  observations : ℕ
  resolvedAt : Option Instant
  deriving DecidableEq

/-- `health_breaches_window_unique`. -/
def Breach.key (row : Breach) : String × Instant := (row.metric, row.windowStart)

/-- The table `health_breaches`. -/
abbrev Ledger := Table Breach Breach.key

/-- What one breach check concluded. -/
structure BreachCheck where
  metric : String
  value : ℚ
  critLimit : ℚ
  observations : ℕ

/-- `true` when this is the first crossing in its window and the event should fire. -/
def BreachCheck.shouldAnnounce (check : BreachCheck) : Bool := check.observations ≤ 1

/-- `health_breaches_value_finite`. -/
def storable (value : ℚ) : Bool := -1000000000000000 ≤ value ∧ value ≤ 1000000000000000

/-- Record that a metric is over its critical line. -/
def recordBreach (ledger : Ledger) (metric : String) (value crit : ℚ) (moment : Instant) :
    Option (Ledger × BreachCheck) :=
  let key := (metric, breachWindow moment)
  if storable value then
    match ledger.find? key with
    | some row =>
      some (ledger.update (·.key = key)
          (fun row => { row with value, observations := row.observations + 1, resolvedAt := none }) fun _ => rfl,
        ⟨metric, value, crit, row.observations + 1⟩)
    | none =>
      (ledger.insert? ⟨metric, breachWindow moment, value, crit, 1, none⟩).map fun ledger =>
        (ledger, ⟨metric, value, crit, 1⟩)
  else none

/-- Clear a metric's breach marker, at the statement's clock. -/
def clearBreach (ledger : Ledger) (metric : String) (moment clock : Instant) : Ledger :=
  ledger.update (fun row => row.key = (metric, breachWindow moment) && row.resolvedAt.isNone)
    (fun row => { row with resolvedAt := some clock }) fun _ => rfl

/-- What the policy does with a sample: the ledger, and the check if the sample is over its critical line. -/
def applySample (thresholds : Thresholds) (ledger : Ledger) (sample : Sample) (now clock : Instant) :
    Option (Ledger × Option BreachCheck) :=
  match thresholds sample.metric with
  | none => some (ledger, none)
  | some threshold =>
    match threshold.classify sample.value with
    | some .down =>
      (recordBreach ledger sample.metric (sample.value.getD 0) threshold.crit now).map
        fun (ledger, check) => (ledger, some check)
    | _ => some (clearBreach ledger sample.metric now clock, none)

/-- A sample over its metric's critical line. -/
def Critical (thresholds : Thresholds) (sample : Sample) : Prop :=
  ∃ threshold, thresholds sample.metric = some threshold ∧ threshold.classify sample.value = some .down

section Statements

variable {ledger ledger' : Ledger} {metric : String} {value crit : ℚ} {moment clock : Instant} {check : BreachCheck}
  {row : Breach}

/-- What recording a breach does: the row of the metric and the window is open, and the others are as they were. The
check is the window's first just when there was no row. -/
structure Recorded (ledger : Ledger) (metric : String) (moment : Instant) (ledger' : Ledger)
  (check : BreachCheck) : Prop where
  opened : ∃ row ∈ ledger', row.key = (metric, breachWindow moment) ∧ row.resolvedAt = none
  origin : ∀ row ∈ ledger', row.key = (metric, breachWindow moment) ∧ 1 ≤ row.observations ∨ row ∈ ledger
  kept : ∀ row ∈ ledger, row.key ≠ (metric, breachWindow moment) → row ∈ ledger'
  keys : ∀ row ∈ ledger, ∃ row' ∈ ledger', row'.key = row.key
  named : check.metric = metric
  first : check.observations ≤ 1 → (∀ row ∈ ledger, 1 ≤ row.observations) →
    ∀ row ∈ ledger, row.key ≠ (metric, breachWindow moment)

theorem recordBreach_spec (h : recordBreach ledger metric value crit moment = some (ledger', check)) :
    Recorded ledger metric moment ledger' check := by
  simp only [recordBreach] at h
  split_ifs at h
  split at h
  · rename_i old hold
    cases h
    obtain ⟨hmem, hkey⟩ := Table.find?_eq_some.mp hold
    have hupdated : ∀ row ∈ ledger, row.key = (metric, breachWindow moment) →
        ({ row with value, observations := row.observations + 1, resolvedAt := none } : Breach) ∈
          ledger.update (·.key = (metric, breachWindow moment))
            (fun row => { row with value, observations := row.observations + 1, resolvedAt := none }) fun _ => rfl := by
      intro row hrow hrowKey
      exact Table.mem_update.mpr ⟨row, hrow, by rw [if_pos (decide_eq_true hrowKey)]⟩
    refine ⟨⟨_, hupdated old hmem hkey, hkey, rfl⟩, fun row hrow => ?_, fun row hrow hne => ?_, fun row hrow => ?_, rfl,
      fun hfirst hpositive => ?_⟩
    · obtain ⟨before, hbefore, rfl⟩ := Table.mem_update.mp hrow
      split_ifs with hsame
      · exact .inl ⟨of_decide_eq_true hsame, Nat.le_add_left 1 _⟩
      · exact .inr hbefore
    · exact Table.mem_update.mpr ⟨row, hrow, by rw [if_neg (by simpa using hne)]⟩
    · refine ⟨_, Table.mem_update.mpr ⟨row, hrow, rfl⟩, ?_⟩
      split_ifs <;> rfl
    · have := hpositive old hmem
      simp only at hfirst
      omega
  · rename_i hnone
    obtain ⟨inserted, hinsert, heq⟩ := Option.map_eq_some_iff.mp h
    obtain ⟨rfl, rfl⟩ := Prod.mk.inj heq
    have hmem : ∀ row, row ∈ inserted ↔ row ∈ ledger ∨ row = ⟨metric, breachWindow moment, value, crit, 1, none⟩ :=
      fun row => Table.mem_insert? hinsert
    refine ⟨⟨_, (hmem _).mpr (.inr rfl), rfl, rfl⟩, fun row hrow => ?_, fun row hrow _ => (hmem row).mpr (.inl hrow),
      fun row hrow => ⟨row, (hmem row).mpr (.inl hrow), rfl⟩, rfl, fun _ _ => Table.find?_eq_none.mp hnone⟩
    rcases (hmem row).mp hrow with hrow | rfl
    · exact .inr hrow
    · exact .inl ⟨rfl, le_rfl⟩

theorem exists_recordBreach (h : storable value = true) :
    ∃ result, recordBreach ledger metric value crit moment = some result := by
  rw [recordBreach, if_pos h]
  cases hfind : ledger.find? (metric, breachWindow moment) with
  | some row => exact ⟨_, rfl⟩
  | none =>
    have hfree : (⟨metric, breachWindow moment, value, crit, 1, none⟩ : Breach).key ∉ ledger.rows.map Breach.key := by
      rw [List.mem_map]
      rintro ⟨row, hrow, hkey⟩
      exact Table.find?_eq_none.mp hfind row hrow hkey
    simp only [Table.insert?, dif_neg hfree]
    exact ⟨_, rfl⟩

/-- What clearing does: the row of the metric and the window is closed, and the others are as they were. -/
structure Cleared (ledger : Ledger) (metric : String) (moment : Instant) (ledger' : Ledger) : Prop where
  closed : ∀ row ∈ ledger', row.key = (metric, breachWindow moment) → row.resolvedAt ≠ none
  origin : ∀ row ∈ ledger', ∃ old ∈ ledger, old.key = row.key ∧ old.observations = row.observations ∧
    (old.resolvedAt ≠ none → row.resolvedAt ≠ none)
  kept : ∀ row ∈ ledger, row.key ≠ (metric, breachWindow moment) → row ∈ ledger'
  keys : ∀ row ∈ ledger, ∃ row' ∈ ledger', row'.key = row.key

theorem clearBreach_spec : Cleared ledger metric moment (clearBreach ledger metric moment clock) := by
  refine ⟨fun row hrow hkey => ?_, fun row hrow => ?_, fun row hrow hne => ?_, fun row hrow => ?_⟩
  · obtain ⟨old, hold, rfl⟩ := Table.mem_update.mp hrow
    split_ifs at hkey ⊢ with hsame
    · exact Option.some_ne_none _
    · simpa [hkey, Option.isNone_iff_eq_none] using hsame
  · obtain ⟨old, hold, rfl⟩ := Table.mem_update.mp hrow
    refine ⟨old, hold, ?_⟩
    split_ifs
    · exact ⟨rfl, rfl, fun _ => Option.some_ne_none _⟩
    · exact ⟨rfl, rfl, id⟩
  · exact Table.mem_update.mpr ⟨row, hrow, by rw [if_neg (by simp [hne])]⟩
  · refine ⟨_, Table.mem_update.mpr ⟨row, hrow, rfl⟩, ?_⟩
    split_ifs <;> rfl

variable {thresholds : Thresholds} {sample : Sample}

/-- The three things that can happen to a sample. -/
theorem applySample_cases {result : Option BreachCheck}
    (h : applySample thresholds ledger sample moment clock = some (ledger', result)) :
    (thresholds sample.metric = none ∧ ledger' = ledger ∧ result = none) ∨
      (∃ check, Critical thresholds sample ∧ Recorded ledger sample.metric moment ledger' check ∧ result = some check) ∨
        (¬ Critical thresholds sample ∧ Cleared ledger sample.metric moment ledger' ∧ result = none) := by
  rw [applySample] at h
  split at h
  · rename_i hnone
    cases h
    exact .inl ⟨hnone, rfl, rfl⟩
  · rename_i threshold hthreshold
    split at h
    · rename_i hdown
      obtain ⟨⟨recorded, check⟩, hrecord, heq⟩ := Option.map_eq_some_iff.mp h
      cases heq
      exact .inr (.inl ⟨check, ⟨threshold, hthreshold, hdown⟩, recordBreach_spec hrecord, rfl⟩)
    · rename_i hother
      cases h
      refine .inr (.inr ⟨?_, clearBreach_spec, rfl⟩)
      rintro ⟨threshold', hthreshold', hdown⟩
      obtain rfl := Option.some.inj (hthreshold.symm.trans hthreshold')
      exact hother hdown

/-- A sample can be dealt with if its value can be stored, when it is critical. -/
theorem exists_applySample (h : Critical thresholds sample → ∀ value, sample.value = some value →
    storable value = true) :
    ∃ result, applySample thresholds ledger sample moment clock = some result := by
  rw [applySample]
  split
  · exact ⟨_, rfl⟩
  · rename_i threshold hthreshold
    split
    · rename_i hdown
      -- a reading that is not finite is in no word
      obtain ⟨value, hvalue⟩ : ∃ value, sample.value = some value := by
        cases hvalue : sample.value with
        | none =>
          rw [hvalue] at hdown
          cases hdown
        | some value => exact ⟨value, rfl⟩
      have hrecord : ∃ result, recordBreach ledger sample.metric value threshold.crit moment = some result :=
        exists_recordBreach (h ⟨threshold, hthreshold, hdown⟩ value hvalue)
      obtain ⟨result, hresult⟩ := hrecord
      exact ⟨_, by rw [hvalue, Option.getD_some, hresult]; rfl⟩
    · exact ⟨_, rfl⟩

end Statements

/-! ### Passes -/

/-- How far a pass is. -/
inductive Stage where
  | idle
  /-- It has these samples, of which some are left. -/
  | running (now : Instant) (samples rest : List Sample)
  | ended

/-- A check a pass has returned. -/
structure Returned where
  pass : ℕ
  service : String
  check : BreachCheck
  windowStart : Instant

/-- The metric and the window of a check. -/
def Returned.key (returned : Returned) : String × Instant := (returned.check.metric, returned.windowStart)

/-- The end of a pass: what it has read, and the ledger it leaves. -/
structure Ending where
  samples : List Sample
  ledger : Ledger

/-- The ledger and the passes. -/
structure Passes where
  ledger : Ledger
  stages : ℕ → Stage
  returned : List Returned
  finished : List ℕ
  endings : List Ending

/-- What happens. -/
inductive PassEvent where
  /-- Pass `p` reads the clock, -/
  | start (p : ℕ) (now : Instant) (samples : List Sample)
  /-- deals with a sample, -/
  | sample (p : ℕ) (clock : Instant)
  /-- and is over. -/
  | finish (p : ℕ)

namespace Passes

/-- Before any pass. -/
def init (ledger : Ledger) : Passes := ⟨ledger, fun _ => .idle, [], [], []⟩

/-- Pass `p` goes on. -/
def move (s : Passes) (p : ℕ) (stage : Stage) : Passes := { s with stages := Function.update s.stages p stage }

def step (thresholds : Thresholds) (s : Passes) : PassEvent → Option Passes
  | .start p now samples =>
    match s.stages p with
    | .idle => some (s.move p (.running now samples samples))
    | _ => none
  | .sample p clock =>
    match s.stages p with
    | .running now samples (sample :: rest) =>
      match applySample thresholds s.ledger sample now clock with
      | some (ledger, check) =>
        some { s.move p (.running now samples rest) with
          ledger, returned := s.returned ++ check.toList.map fun check => ⟨p, sample.service, check, breachWindow now⟩ }
      | none => some { s.move p .ended with endings := s.endings ++ [⟨samples, s.ledger⟩] }
    | _ => none
  | .finish p =>
    match s.stages p with
    | .running _ samples [] =>
      some { s.move p .ended with finished := p :: s.finished, endings := s.endings ++ [⟨samples, s.ledger⟩] }
    | _ => none

/-- The windows of metrics that have been announced, each time. -/
def announced (s : Passes) : List (String × Instant) :=
  (s.returned.filter fun returned => returned.check.shouldAnnounce && s.finished.contains returned.pass).map (·.key)

end Passes

def ReadsCritical (thresholds : Thresholds) (samples : List Sample) (metric : String) : Prop :=
  ∃ sample ∈ samples, sample.metric = metric ∧ Critical thresholds sample

/-- **What a pass should leave**: an open row of each metric it has read a critical sample of, and no open row, of any
window, of each metric it has read no critical sample of. -/
structure Ending.Sound (thresholds : Thresholds) (ending : Ending) : Prop where
  opened : ∀ metric, ReadsCritical thresholds ending.samples metric →
    ∃ row ∈ ending.ledger, row.metric = metric ∧ row.resolvedAt = none
  closed : ∀ sample ∈ ending.samples, ¬ ReadsCritical thresholds ending.samples sample.metric →
    ∀ row ∈ ending.ledger, row.metric = sample.metric → row.resolvedAt ≠ none

/-- **The ledger is right**: no window of a metric is announced twice, and every pass has left what it should. -/
structure Passes.Sound (thresholds : Thresholds) (s : Passes) : Prop where
  once : s.announced.Nodup
  endings : ∀ ending ∈ s.endings, ending.Sound thresholds

def lastOf (samples : List Sample) (metric : String) : Option Sample :=
  (samples.filter fun sample => sample.metric = metric).getLast?

/-- A pass has dealt with all its samples of a metric. -/
def Stage.Settled (stage : Stage) (now : Instant) (samples : List Sample) (metric : String) : Prop :=
  ∃ rest, stage = .running now samples rest ∧ metric ∈ samples.map (·.metric) ∧ metric ∉ rest.map (·.metric)

/-- **Passes that do not disturb each other.** Of the samples of a metric in a pass, if one is critical the last is, and
critical readings can be stored. While a pass that has recorded a metric goes on, no other clears the same window of
it; while a pass that has cleared a metric goes on, no other records it. And when a pass clears for the last time a
metric of which it has read nothing critical, no row of another window is open. -/
def Passes.Undisturbed (thresholds : Thresholds) (s : Passes) : PassEvent → Prop
  | .start _ _ samples => ∀ sample ∈ samples, Critical thresholds sample →
      (∃ last, lastOf samples sample.metric = some last ∧ Critical thresholds last) ∧
        ∀ value, sample.value = some value → storable value = true
  | .sample p _ => ∀ now samples sample rest, s.stages p = .running now samples (sample :: rest) →
      (Critical thresholds sample → ∀ q, q ≠ p → ∀ now' samples', (s.stages q).Settled now' samples' sample.metric →
        ReadsCritical thresholds samples' sample.metric) ∧
      (¬ Critical thresholds sample → (∀ q, q ≠ p → ∀ now' samples', (s.stages q).Settled now' samples' sample.metric →
        breachWindow now' = breachWindow now → ¬ ReadsCritical thresholds samples' sample.metric) ∧
        (¬ ReadsCritical thresholds samples sample.metric → sample.metric ∉ rest.map (·.metric) →
          ∀ row ∈ s.ledger, row.metric = sample.metric → row.windowStart ≠ breachWindow now → row.resolvedAt ≠ none))
  | .finish _ => True

/-! ### What the steps keep -/

/-- **What holds of every state.** Rows are of metrics with thresholds and count at least one observation. A pass that
goes on has its samples in order; the metrics it has dealt with are open in its window or closed in all. The checks
that are first are of different rows. -/
structure Passes.Inv (thresholds : Thresholds) (s : Passes) : Prop where
  rows : ∀ row ∈ s.ledger, (thresholds row.metric).isSome = true ∧ 1 ≤ row.observations
  suffix : ∀ p now samples rest, s.stages p = .running now samples rest → rest <:+ samples
  ordered : ∀ p now samples rest, s.stages p = .running now samples rest → ∀ sample ∈ samples,
    Critical thresholds sample →
    (∃ last, lastOf samples sample.metric = some last ∧ Critical thresholds last) ∧
      ∀ value, sample.value = some value → storable value = true
  opened : ∀ p now samples metric, (s.stages p).Settled now samples metric → ReadsCritical thresholds samples metric →
    ∃ row ∈ s.ledger, row.key = (metric, breachWindow now) ∧ row.resolvedAt = none
  closed : ∀ p now samples metric, (s.stages p).Settled now samples metric → ¬ ReadsCritical thresholds samples metric →
    ∀ row ∈ s.ledger, row.metric = metric → row.resolvedAt ≠ none
  first : ((s.returned.filter fun returned => returned.check.shouldAnnounce).map (·.key)).Nodup
  recorded : ∀ returned ∈ s.returned, ∃ row ∈ s.ledger, row.key = returned.key
  endings : ∀ ending ∈ s.endings, ending.Sound thresholds

namespace Passes

variable {thresholds : Thresholds} {s t : Passes} {p q : ℕ} {now now' clock : Instant}
  {samples samples' rest : List Sample}
  {sample : Sample} {metric : String} {stage : Stage} {ledger : Ledger} {e : PassEvent} {es : List PassEvent}

@[simp] theorem stages_move_self : (s.move p stage).stages p = stage := Function.update_self ..

theorem stages_move_of_ne (h : q ≠ p) : (s.move p stage).stages q = s.stages q := Function.update_of_ne h ..

theorem settled_move (h : s.stages p = .running now samples (sample :: rest))
    (hsettled : ((s.move p (.running now samples rest)).stages q).Settled now' samples' metric) :
    (s.stages q).Settled now' samples' metric ∨
      q = p ∧ now' = now ∧ samples' = samples ∧ metric = sample.metric ∧ metric ∉ rest.map (·.metric) := by
  by_cases hq : q = p
  · subst hq
    obtain ⟨rest', hstage, hmem, hrest⟩ := hsettled
    rw [stages_move_self] at hstage
    obtain ⟨rfl, rfl, rfl⟩ := Stage.running.inj hstage
    by_cases hmetric : metric = sample.metric
    · exact .inr ⟨rfl, rfl, rfl, hmetric, hrest⟩
    · refine .inl ⟨_, h, hmem, ?_⟩
      simp only [List.map_cons, List.mem_cons, not_or]
      exact ⟨hmetric, hrest⟩
  · rw [stages_move_of_ne hq] at hsettled
    exact .inl hsettled

theorem lastOf_suffix (h : sample :: rest <:+ samples) (hrest : sample.metric ∉ rest.map (·.metric)) :
    lastOf samples sample.metric = some sample := by
  obtain ⟨before, rfl⟩ := h
  have hnone : rest.filter (fun other => other.metric = sample.metric) = [] := by
    rw [List.filter_eq_nil_iff]
    intro other hother heq
    exact hrest (List.mem_map.mpr ⟨other, hother, of_decide_eq_true heq⟩)
  simp [lastOf, hnone]

theorem Inv.order (h : s.Inv thresholds) (hstage : s.stages p = .running now samples (sample :: rest)) :
    (∀ q now' samples' rest', (s.move p (.running now samples rest)).stages q = .running now' samples' rest' →
      rest' <:+ samples') ∧
    (∀ q now' samples' rest', (s.move p (.running now samples rest)).stages q = .running now' samples' rest' →
      ∀ sample ∈ samples', Critical thresholds sample →
        (∃ last, lastOf samples' sample.metric = some last ∧ Critical thresholds last) ∧
          ∀ value, sample.value = some value → storable value = true) := by
  constructor
  · intro q now' samples' rest' hq
    by_cases hp : q = p
    · rw [hp, stages_move_self] at hq
      obtain ⟨rfl, rfl, rfl⟩ := Stage.running.inj hq
      exact (List.suffix_cons sample rest).trans (h.suffix p now samples _ hstage)
    · exact h.suffix q now' samples' rest' (by rwa [stages_move_of_ne hp] at hq)
  · intro q now' samples' rest' hq
    by_cases hp : q = p
    · rw [hp, stages_move_self] at hq
      obtain ⟨rfl, rfl, rfl⟩ := Stage.running.inj hq
      exact h.ordered p now samples _ hstage
    · exact h.ordered q now' samples' rest' (by rwa [stages_move_of_ne hp] at hq)

theorem Inv.skip (h : s.Inv thresholds) (hstage : s.stages p = .running now samples (sample :: rest))
    (hnone : thresholds sample.metric = none) : (s.move p (.running now samples rest)).Inv thresholds := by
  refine ⟨h.rows, (h.order hstage).1, (h.order hstage).2, fun q now' samples' metric hsettled hcritical => ?_,
    fun q now' samples' metric hsettled hcritical row hrow hmetric => ?_, h.first, h.recorded, h.endings⟩
  · rcases settled_move hstage hsettled with hsettled | ⟨-, -, -, rfl, -⟩
    · exact h.opened q now' samples' metric hsettled hcritical
    · obtain ⟨other, -, hother, threshold, hthreshold, -⟩ := hcritical
      rw [hother, hnone] at hthreshold
      cases hthreshold
  · rcases settled_move hstage hsettled with hsettled | ⟨-, -, -, rfl, -⟩
    · exact h.closed q now' samples' metric hsettled hcritical row hrow hmetric
    · have hsome := (h.rows row hrow).1
      rw [hmetric, hnone] at hsome
      cases hsome

/-- A critical sample. -/
theorem Inv.record {service : String} {check : BreachCheck} (h : s.Inv thresholds)
    (hstage : s.stages p = .running now samples (sample :: rest)) (hok : s.Undisturbed thresholds (.sample p clock))
    (hcritical : Critical thresholds sample) (hrecorded : Recorded s.ledger sample.metric now ledger check) :
    ({ s.move p (.running now samples rest) with
      ledger, returned := s.returned ++ [⟨p, service, check, breachWindow now⟩] } : Passes).Inv thresholds := by
  have hmem : sample ∈ samples := (h.suffix p now samples _ hstage).subset (.head _)
  have hsome : (thresholds sample.metric).isSome = true := by
    obtain ⟨threshold, hthreshold, -⟩ := hcritical
    rw [hthreshold]
    rfl
  refine ⟨fun row hrow => ?_, (h.order hstage).1, (h.order hstage).2, fun q now' samples' metric hsettled hreads => ?_,
    fun q now' samples' metric hsettled hreads row hrow hmetric => ?_, ?_, fun returned hreturned => ?_, h.endings⟩
  · rcases hrecorded.origin row hrow with ⟨hkey, hpositive⟩ | hold
    · exact ⟨(Prod.mk.inj hkey).1 ▸ hsome, hpositive⟩
    · exact h.rows row hold
  · by_cases hkey : (metric, breachWindow now') = (sample.metric, breachWindow now)
    · rw [hkey]
      exact hrecorded.opened
    · rcases settled_move hstage hsettled with hsettled | ⟨rfl, rfl, rfl, rfl, -⟩
      · obtain ⟨row, hrow, hrowKey, hopen⟩ := h.opened q now' samples' metric hsettled hreads
        exact ⟨row, hrecorded.kept row hrow (hrowKey ▸ hkey), hrowKey, hopen⟩
      · exact absurd rfl hkey
  · have hother : metric ≠ sample.metric := by
      rintro rfl
      rcases settled_move hstage hsettled with hsettled | ⟨-, -, rfl, -, -⟩
      · by_cases hq : q = p
        · obtain ⟨rest', hstage', -, hrest'⟩ := hsettled
          rw [hq, hstage] at hstage'
          obtain ⟨rfl, rfl, rfl⟩ := Stage.running.inj hstage'
          exact hrest' (List.mem_map.mpr ⟨sample, .head _, rfl⟩)
        · exact hreads ((hok now samples sample rest hstage).1 hcritical q hq now' samples' hsettled)
      · exact hreads ⟨sample, hmem, rfl, hcritical⟩
    rcases settled_move hstage hsettled with hsettled | ⟨-, -, -, rfl, -⟩
    · rcases hrecorded.origin row hrow with ⟨hkey, -⟩ | hold
      · exact absurd (hmetric.symm.trans (Prod.mk.inj hkey).1) hother
      · exact h.closed q now' samples' metric hsettled hreads row hold hmetric
    · exact absurd rfl hother
  · rw [List.filter_append, List.map_append]
    refine List.nodup_append.mpr ⟨h.first, ?_, fun key hkey other hother heq => ?_⟩
    · exact (List.nodup_singleton _).sublist (List.filter_sublist.map _)
    · -- a check that is first in its window finds no row
      subst heq
      obtain ⟨new, hnew, rfl⟩ := List.mem_map.mp hother
      obtain ⟨hnew, hannounce⟩ := List.mem_filter.mp hnew
      obtain rfl := List.mem_singleton.mp hnew
      obtain ⟨old, hold, hkeyEq⟩ := List.mem_map.mp hkey
      obtain ⟨row, hrow, hrowKey⟩ := h.recorded old (List.mem_filter.mp hold).1
      have hfirst := hrecorded.first (of_decide_eq_true hannounce) fun row hrow => (h.rows row hrow).2
      refine hfirst row hrow ((hrowKey.trans hkeyEq).trans ?_)
      rw [Returned.key, hrecorded.named]
  · rcases List.mem_append.mp hreturned with hold | hnew
    · obtain ⟨row, hrow, hkey⟩ := h.recorded returned hold
      obtain ⟨row', hrow', hkey'⟩ := hrecorded.keys row hrow
      exact ⟨row', hrow', hkey'.trans hkey⟩
    · obtain ⟨row, hrow, hkey, -⟩ := hrecorded.opened
      rw [List.mem_singleton.mp hnew, Returned.key, hrecorded.named]
      exact ⟨row, hrow, hkey⟩

/-- A sample that is not critical. -/
theorem Inv.clear (h : s.Inv thresholds) (hstage : s.stages p = .running now samples (sample :: rest))
    (hok : s.Undisturbed thresholds (.sample p clock)) (hcritical : ¬ Critical thresholds sample)
    (hcleared : Cleared s.ledger sample.metric now ledger) :
    ({ s.move p (.running now samples rest) with ledger } : Passes).Inv thresholds := by
  obtain ⟨-, hclear⟩ := hok now samples sample rest hstage
  obtain ⟨hothers, hwindows⟩ := hclear hcritical
  refine ⟨fun row hrow => ?_, (h.order hstage).1, (h.order hstage).2, fun q now' samples' metric hsettled hreads => ?_,
    fun q now' samples' metric hsettled hreads row hrow hmetric => ?_, h.first, fun returned hreturned => ?_, h.endings⟩
  · obtain ⟨old, hold, hkey, hobservations, -⟩ := hcleared.origin row hrow
    rw [← (Prod.mk.inj hkey).1, ← hobservations]
    exact h.rows old hold
  · have hkept : ∀ row ∈ s.ledger, row.key = (metric, breachWindow now') → row.resolvedAt = none →
        (metric, breachWindow now') ≠ (sample.metric, breachWindow now) →
          ∃ row ∈ ledger, row.key = (metric, breachWindow now') ∧ row.resolvedAt = none :=
      fun row hrow hkey hopen hne => ⟨row, hcleared.kept row hrow (hkey ▸ hne), hkey, hopen⟩
    rcases settled_move hstage hsettled with hsettled | ⟨rfl, rfl, rfl, rfl, hrest⟩
    · obtain ⟨row, hrow, hkey, hopen⟩ := h.opened q now' samples' metric hsettled hreads
      refine hkept row hrow hkey hopen fun heq => ?_
      obtain ⟨rfl, hwindow⟩ := Prod.mk.inj heq
      by_cases hq : q = p
      · obtain ⟨rest', hstage', -, hrest'⟩ := hsettled
        rw [hq, hstage] at hstage'
        obtain ⟨rfl, rfl, rfl⟩ := Stage.running.inj hstage'
        exact hrest' (List.mem_map.mpr ⟨sample, .head _, rfl⟩)
      · exact hothers q hq now' samples' hsettled hwindow hreads
    · -- the last sample of the metric would be critical
      obtain ⟨other, hother, hotherMetric, hotherCritical⟩ := hreads
      obtain ⟨⟨last, hlast, hlastCritical⟩, -⟩ := h.ordered q now' samples' _ hstage other hother hotherCritical
      rw [hotherMetric, lastOf_suffix (h.suffix q now' samples' _ hstage) hrest] at hlast
      exact absurd (Option.some.inj hlast ▸ hlastCritical) hcritical
  · obtain ⟨old, hold, hkey, -, hclosed⟩ := hcleared.origin row hrow
    have hmetricOld : old.metric = metric := (Prod.mk.inj hkey).1.trans hmetric
    rcases settled_move hstage hsettled with hsettled | ⟨rfl, rfl, rfl, rfl, hrest⟩
    · exact hclosed (h.closed q now' samples' metric hsettled hreads old hold hmetricOld)
    · by_cases hwindow : row.windowStart = breachWindow now'
      · exact hcleared.closed row hrow (Prod.ext hmetric hwindow)
      · refine hclosed (hwindows hreads hrest old hold hmetricOld ?_)
        rwa [(Prod.mk.inj hkey).2]
  · obtain ⟨row, hrow, hkey⟩ := h.recorded returned hreturned
    obtain ⟨row', hrow', hkey'⟩ := hcleared.keys row hrow
    exact ⟨row', hrow', hkey'.trans hkey⟩

theorem settled_move_of_not_running (hstage : ∀ now samples rest, stage ≠ .running now samples rest)
    (h : ((s.move p stage).stages q).Settled now' samples' metric) : (s.stages q).Settled now' samples' metric := by
  by_cases hq : q = p
  · obtain ⟨rest, hrunning, -⟩ := h
    rw [hq, stages_move_self] at hrunning
    exact absurd hrunning (hstage now' samples' rest)
  · rwa [stages_move_of_ne hq] at h

/-- A pass that begins has settled nothing. -/
theorem Inv.begin (h : s.Inv thresholds) (hok : s.Undisturbed thresholds (.start p now samples)) :
    (s.move p (.running now samples samples)).Inv thresholds := by
  have hsettled : ∀ {q now' samples' metric},
      ((s.move p (.running now samples samples)).stages q).Settled now' samples' metric →
        (s.stages q).Settled now' samples' metric := by
    intro q now' samples' metric hsettled
    by_cases hq : q = p
    · obtain ⟨rest, hrunning, hmem, hrest⟩ := hsettled
      rw [hq, stages_move_self] at hrunning
      obtain ⟨rfl, rfl, rfl⟩ := Stage.running.inj hrunning
      exact absurd hmem hrest
    · rwa [stages_move_of_ne hq] at hsettled
  refine ⟨h.rows, fun q now' samples' rest' hq => ?_, fun q now' samples' rest' hq => ?_,
    fun q now' samples' metric hq => h.opened q now' samples' metric (hsettled hq),
    fun q now' samples' metric hq => h.closed q now' samples' metric (hsettled hq), h.first, h.recorded, h.endings⟩
  · by_cases hp : q = p
    · rw [hp, stages_move_self] at hq
      obtain ⟨rfl, rfl, rfl⟩ := Stage.running.inj hq
      exact List.suffix_rfl
    · exact h.suffix q now' samples' rest' (by rwa [stages_move_of_ne hp] at hq)
  · by_cases hp : q = p
    · rw [hp, stages_move_self] at hq
      obtain ⟨rfl, rfl, rfl⟩ := Stage.running.inj hq
      exact hok
    · exact h.ordered q now' samples' rest' (by rwa [stages_move_of_ne hp] at hq)

theorem Inv.ended (h : s.Inv thresholds) (hstage : s.stages p = .running now samples []) :
    (⟨samples, s.ledger⟩ : Ending).Sound thresholds := by
  have hsettled : ∀ sample ∈ samples, (s.stages p).Settled now samples sample.metric :=
    fun sample hsample => ⟨[], hstage, List.mem_map.mpr ⟨sample, hsample, rfl⟩, List.not_mem_nil⟩
  refine ⟨fun metric hreads => ?_, fun sample hsample hreads =>
    h.closed p now samples sample.metric (hsettled sample hsample) hreads⟩
  obtain ⟨sample, hsample, rfl, hcritical⟩ := hreads
  obtain ⟨row, hrow, hkey, hopen⟩ :=
    h.opened p now samples sample.metric (hsettled sample hsample) ⟨sample, hsample, rfl, hcritical⟩
  exact ⟨row, hrow, (Prod.mk.inj hkey).1, hopen⟩

theorem Inv.finish {finished : List ℕ} (h : s.Inv thresholds) (hstage : s.stages p = .running now samples []) :
    ({ s.move p .ended with finished, endings := s.endings ++ [⟨samples, s.ledger⟩] } : Passes).Inv thresholds := by
  have hsettled : ∀ {q now' samples' metric}, ((s.move p .ended).stages q).Settled now' samples' metric →
      (s.stages q).Settled now' samples' metric := settled_move_of_not_running (fun _ _ _ => Stage.noConfusion)
  have hrunning : ∀ {q now' samples' rest'}, (s.move p .ended).stages q = .running now' samples' rest' →
      s.stages q = .running now' samples' rest' := by
    intro q now' samples' rest' hq
    by_cases hp : q = p
    · rw [hp, stages_move_self] at hq
      cases hq
    · rwa [stages_move_of_ne hp] at hq
  refine ⟨h.rows, fun q now' samples' rest' hq => h.suffix q now' samples' rest' (hrunning hq),
    fun q now' samples' rest' hq => h.ordered q now' samples' rest' (hrunning hq),
    fun q now' samples' metric hq => h.opened q now' samples' metric (hsettled hq),
    fun q now' samples' metric hq => h.closed q now' samples' metric (hsettled hq), h.first, h.recorded,
      fun ending hending => ?_⟩
  rcases List.mem_append.mp hending with hold | hnew
  · exact h.endings ending hold
  · rw [List.mem_singleton.mp hnew]
    exact h.ended hstage

/-- **What the steps keep.** -/
theorem Inv.step (h : s.Inv thresholds) (hok : s.Undisturbed thresholds e) (hstep : step thresholds s e = some t) :
    t.Inv thresholds := by
  cases e with
  | start p now samples =>
    simp only [Passes.step] at hstep
    split at hstep
    · cases hstep
      exact h.begin hok
    · cases hstep
  | sample p clock =>
    simp only [Passes.step] at hstep
    split at hstep
    · rename_i now samples sample rest hstage
      split at hstep
      · rename_i ledger result hsample
        cases hstep
        rcases applySample_cases hsample with ⟨hnone, rfl, rfl⟩ | ⟨check, hcritical, hrecorded,
          rfl⟩ | ⟨hcritical, hcleared, rfl⟩
        · rw [Option.toList_none, List.map_nil, List.append_nil]
          exact h.skip hstage hnone
        · exact h.record hstage hok hcritical hrecorded
        · rw [Option.toList_none, List.map_nil, List.append_nil]
          exact h.clear hstage hok hcritical hcleared
      · rename_i hrefused
        have hmem : sample ∈ samples := (h.suffix p now samples _ hstage).subset (.head _)
        have happly : ∃ result, applySample thresholds s.ledger sample now clock = some result :=
          exists_applySample fun hcritical => (h.ordered p now samples _ hstage sample hmem hcritical).2
        obtain ⟨result, hresult⟩ := happly
        rw [hresult] at hrefused
        cases hrefused
    · cases hstep
  | finish p =>
    simp only [Passes.step] at hstep
    split at hstep
    · rename_i now samples hstage
      cases hstep
      exact h.finish hstage
    · cases hstep

theorem Inv.init (h : ∀ row ∈ ledger, (thresholds row.metric).isSome = true ∧ 1 ≤ row.observations) :
    (init ledger).Inv thresholds := by
  refine ⟨h, ?_, ?_, ?_, ?_, List.nodup_nil, fun _ hreturned => ?_, fun _ hending => ?_⟩
  · intro p now samples rest hstage
    cases hstage
  · intro p now samples rest hstage
    cases hstage
  · rintro p now samples metric ⟨rest, hstage, -⟩
    cases hstage
  · rintro p now samples metric ⟨rest, hstage, -⟩
    cases hstage
  · cases hreturned
  · cases hending

theorem Inv.sound (h : s.Inv thresholds) : s.Sound thresholds := by
  refine ⟨h.first.sublist (List.Sublist.map _ ?_), h.endings⟩
  rw [← List.filter_filter]
  exact List.filter_sublist.filter _

/-- **The ledger is right** in a run of passes that do not disturb each other, from a ledger that is. -/
theorem run_ledger (hledger : ∀ row ∈ ledger, (thresholds row.metric).isSome = true ∧ 1 ≤ row.observations)
    (h : Run (step thresholds) (Undisturbed thresholds) (init ledger) es s) : s.Sound thresholds :=
  (h.invariant (Inv.init hledger) fun _ _ _ hinv hok hstep => hinv.step hok hstep).sound

/-! ### Two runs -/

def memoryThresholds : Thresholds := fun metric => if metric = "memory_percent" then some ⟨80, 92, .above⟩ else none

/-- No metric has been over its line. -/
def noBreaches : Ledger := ⟨[], by decide⟩

/-- Memory is over its line, -/
def memoryHigh : Sample := ⟨"host", "memory_percent", some 95⟩

/-- and under it. -/
def memoryLow : Sample := ⟨"host", "memory_percent", some 40⟩

theorem undisturbed_of_alone (hstage : s.stages p = .running now samples rest)
    (hothers : ∀ q, q ≠ p → ∀ now samples rest, s.stages q ≠ .running now samples rest)
    (hrows : ∀ row ∈ s.ledger, row.windowStart = breachWindow now) : s.Undisturbed thresholds (.sample p clock) := by
  intro now' samples' sample rest' hstage'
  obtain ⟨rfl, rfl, rfl⟩ := Stage.running.inj (hstage.symm.trans hstage')
  refine ⟨fun _ q hq _ _ ⟨_, hrunning, _⟩ => absurd hrunning (hothers q hq _ _ _), fun _ => ⟨?_, ?_⟩⟩
  · exact fun q hq _ _ ⟨_, hrunning, _⟩ => absurd hrunning (hothers q hq _ _ _)
  · exact fun _ _ row hrow _ hwindow => absurd (hrows row hrow) hwindow

/-- Two passes of a window that read memory over its line, and a third that reads it under. -/
def threePasses : List PassEvent :=
  [.start 1 0 [memoryHigh], .sample 1 0, .finish 1, .start 2 60000000 [memoryHigh], .sample 2 60000000, .finish 2,
    .start 3 120000000 [memoryLow], .sample 3 120000000, .finish 3]

/-- The breach is announced once, and over. -/
theorem run_ledger_recorded : ∃ s, Run (step memoryThresholds) (Undisturbed memoryThresholds) (init noBreaches)
    threePasses s ∧
      s.announced = [("memory_percent", 0)] ∧
      s.ledger.rows = [⟨"memory_percent", 0, 95, 92, 2, some 120000000⟩] ∧ s.Sound memoryThresholds := by
  have hcritical : Critical memoryThresholds memoryHigh := ⟨_, rfl, by decide +kernel⟩
  have hhigh : ∀ {s : Passes} {p : ℕ} {now : Instant}, s.Undisturbed memoryThresholds (.start p now [memoryHigh]) := by
    intro s p now sample hsample _
    obtain rfl := List.mem_singleton.mp hsample
    refine ⟨⟨memoryHigh, by decide +kernel, hcritical⟩, fun value hvalue => ?_⟩
    cases hvalue
    decide +kernel
  have hrun : ∃ s, Run (step memoryThresholds) (Undisturbed memoryThresholds) (init noBreaches)
      threePasses s ∧
      s.announced = [("memory_percent", 0)] ∧
      s.ledger.rows = [⟨"memory_percent", 0, 95, 92, 2, some 120000000⟩] := by
    refine ⟨_, .cons ?_ rfl (.cons ?_ rfl (.cons trivial rfl (.cons ?_ rfl (.cons ?_ rfl (.cons trivial rfl
      (.cons ?_ rfl (.cons ?_ rfl (.cons trivial rfl .nil)))))))), rfl, rfl⟩
    · exact hhigh
    · refine undisturbed_of_alone rfl (fun q hq now samples rest hrunning => ?_) fun _ hrow => nomatch hrow
      rcases q with _ | _ | q
      · cases hrunning
      · exact hq rfl
      · cases hrunning
    · exact hhigh
    · refine undisturbed_of_alone rfl (fun q hq now samples rest hrunning => ?_) fun row hrow => ?_
      · rcases q with _ | _ | _ | q
        · cases hrunning
        · cases hrunning
        · exact hq rfl
        · cases hrunning
      · obtain rfl := List.mem_singleton.mp hrow
        rfl
    · rintro sample hsample ⟨threshold, hthreshold, hdown⟩
      obtain rfl := List.mem_singleton.mp hsample
      cases hthreshold
      exact absurd hdown (by decide +kernel)
    · refine undisturbed_of_alone rfl (fun q hq now samples rest hrunning => ?_) fun row hrow => ?_
      · rcases q with _ | _ | _ | _ | q
        · cases hrunning
        · cases hrunning
        · cases hrunning
        · exact hq rfl
        · cases hrunning
      · obtain rfl := List.mem_singleton.mp hrow
        rfl
  obtain ⟨s, hrun, hannounced, hrows⟩ := hrun
  exact ⟨s, hrun, hannounced, hrows, run_ledger (List.forall_iff_forall_mem.mp (by decide)) hrun⟩

/-- The row of a breach of 00:00 stays open when memory is low at 00:15. -/
theorem later_window : ∃ s, Run (step memoryThresholds) Any (init noBreaches)
    [.start 1 0 [memoryHigh], .sample 1 0, .finish 1, .start 2 900000000 [memoryLow],
      .sample 2 900000000, .finish 2] s ∧
      ¬ s.Sound memoryThresholds := by
  have hexec : (exec (step memoryThresholds) (init noBreaches) [.start 1 0 [memoryHigh], .sample 1 0, .finish 1,
      .start 2 900000000 [memoryLow], .sample 2 900000000, .finish 2]).map
        (fun s => (s.endings.getLast?).map fun ending => (ending.samples, ending.ledger.rows)) =
      some (some ([memoryLow], [⟨"memory_percent", 0, 95, 92, 1, none⟩])) := by
    decide +kernel
  obtain ⟨s, hrun, hlast⟩ := Run.of_exec_map hexec
  refine ⟨s, hrun, fun h => ?_⟩
  obtain ⟨ending, hending, heq⟩ := Option.map_eq_some_iff.mp hlast
  obtain ⟨hsamples, hrows⟩ := Prod.mk.inj heq
  have hnot : ¬ ReadsCritical memoryThresholds ending.samples memoryLow.metric := by
    rw [hsamples]
    rintro ⟨sample, hsample, -, threshold, hthreshold, hdown⟩
    rw [List.mem_singleton.mp hsample] at hthreshold hdown
    obtain rfl : (⟨80, 92, .above⟩ : Threshold) = threshold := Option.some.inj hthreshold
    exact absurd hdown (by decide +kernel)
  have hsound := h.endings ending (List.mem_of_getLast? hending)
  have hclosed := hsound.closed memoryLow (hsamples ▸ List.mem_singleton.mpr rfl) hnot
  have hrow : ⟨"memory_percent", 0, 95, 92, 1, none⟩ ∈ ending.ledger.rows := hrows ▸ List.mem_singleton.mpr rfl
  exact hclosed _ hrow rfl rfl

end Passes

end Omnion.Health
