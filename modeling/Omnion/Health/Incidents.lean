import Omnion.Health.Breaches

/-!
# The incident timeline

`detect`, `is_suppressed` and `apply` of `crates/health/src/incidents.rs` and the policy pass `apply_policy` of
`registry.rs` that calls them for each service and then deals with the samples. The open incident of a service is the
platform's memory of its state and also the row that `health_incidents_one_open_per_service` protects.

## The model

The table carries its constraints. Any number of passes run next to each other, one statement a step, next to
incidents resolved by hand and changes of the maintenance windows. Where several open incidents of a service began
at the same time, the event says which one the read takes. A statement the database refuses ends its pass.

## What is proved

* `run_timeline` — in every run whose steps are `Steady` no pass is cut short, and after each pass every service it
  has found degraded or down has an open incident that says so, and every service it has found healthy has none.
* `worsening_refused` — a service that goes from degraded to down ends the pass.

## Honest scope

The host row is no service of the timeline: the pass leaves it out. What the pass announces is not modelled, nor are
acknowledgements. The thresholds stay as they are.
-/

namespace Omnion.Health

open Transition

/-- The four words a service state can be. -/
inductive ServiceState where
  | healthy
  | degraded
  | down
  | unknown
  deriving DecidableEq

/-- The severity order. -/
def ServiceState.rank : ServiceState → ℕ
  | .healthy => 0
  | .unknown => 1
  | .degraded => 2
  | .down => 3

/-- The vocabulary's own copy of a word. -/
def canonicalState (state : String) : ServiceState :=
  if state = "healthy" then .healthy
  else if state = "degraded" then .degraded
  else if state = "down" then .down
  else .unknown

/-- The service whose metrics come from the kernel (`HOST_SERVICE`). -/
def hostService : String := "host"

/-- What the last run concluded about one service. -/
structure ServiceReport where
  service : String
  state : String
  message : String
  /-- Named fields behind the message, as JSON. -/
  detail : String

/-- A row of `health_incidents`. -/
structure Incident where
  id : Uuid
  service : String
  fromState : ServiceState
  toState : ServiceState
  summary : String
  detail : String
  startedAt : Instant
  resolvedAt : Option Instant
  suppressed : Bool
  deriving DecidableEq

/-- The rows `health_incidents_one_open_per_service` is about. -/
def Incident.Indexed (row : Incident) : Prop := row.resolvedAt = none ∧ row.suppressed = false

instance (row : Incident) : Decidable row.Indexed := inferInstanceAs (Decidable (_ ∧ _))

/-- `health_incidents_resolved_shape`. -/
def Incident.Shape (row : Incident) : Prop := row.resolvedAt.isSome = true ↔ row.toState = .healthy

instance (row : Incident) : Decidable row.Shape := inferInstanceAs (Decidable (_ ↔ _))

/-- What the statements that resolve an incident set. -/
def Incident.close (row : Incident) (clock : Instant) : Incident :=
    { row with resolvedAt := some clock, toState := .healthy }

/-- The table `health_incidents`, with its constraints. -/
structure Incidents where
  table : Table Incident (·.id)
  shape : ∀ row ∈ table, row.Shape
  oneOpen : ∀ row ∈ table, ∀ other ∈ table, row.Indexed → other.Indexed → row.service = other.service → row = other

namespace Incidents

def openOf (incidents : Incidents) (service : String) : List Incident :=
  incidents.table.rows.filter fun row => row.service = service ∧ row.resolvedAt = none

/-- What `open_incident` may read: one of the newest open incidents of the service, or that there is none. -/
def OpenIncident (incidents : Incidents) (service : String) : Option Incident → Prop
  | none => incidents.openOf service = []
  | some row => row ∈ incidents.openOf service ∧ ∀ other ∈ incidents.openOf service, other.startedAt ≤ row.startedAt

instance (incidents : Incidents) (service : String) : DecidablePred (incidents.OpenIncident service)
  | none => inferInstanceAs (Decidable (_ = _))
  | some _ => inferInstanceAs (Decidable (_ ∧ _))

/-- Insert a row, unless a constraint refuses it. -/
def insert? (incidents : Incidents) (row : Incident) : Option Incidents :=
  match h : incidents.table.insert? row with
  | none => none
  | some table =>
    if hrow : row.Shape ∧ ∀ other ∈ incidents.table.rows, row.Indexed → other.Indexed → other.service ≠ row.service then
      some {
        table
        shape := fun other hother => by
          rcases (Table.mem_insert? h).mp hother with hold | rfl
          · exact incidents.shape other hold
          · exact hrow.1
        oneOpen := fun a ha b hb hopenA hopenB hservice => by
          rcases (Table.mem_insert? h).mp ha with holdA | rfl <;> rcases (Table.mem_insert? h).mp hb with holdB | rfl
          · exact incidents.oneOpen a holdA b holdB hopenA hopenB hservice
          · exact absurd hservice (hrow.2 a holdA hopenB hopenA)
          · exact absurd hservice.symm (hrow.2 b holdB hopenA hopenB)
          · rfl }
    else none

/-- `update health_incidents set resolved_at = .., to_state = 'healthy' where resolved_at is null and ..`. -/
def resolve (incidents : Incidents) (p : Incident → Bool) (clock : Instant) : Incidents where
  table := incidents.table.update (fun row => p row && row.resolvedAt.isNone)
    (·.close clock) fun _ => rfl
  shape := fun row hrow => by
    obtain ⟨old, hold, rfl⟩ := Table.mem_update.mp hrow
    split_ifs
    · exact ⟨fun _ => rfl, fun _ => rfl⟩
    · exact incidents.shape old hold
  oneOpen := fun a ha b hb hopenA hopenB hservice => by
    obtain ⟨oldA, holdA, rfl⟩ := Table.mem_update.mp ha
    obtain ⟨oldB, holdB, rfl⟩ := Table.mem_update.mp hb
    split_ifs at hopenA hopenB hservice ⊢
    · cases hopenA.1
    · cases hopenA.1
    · cases hopenB.1
    · exact incidents.oneOpen oldA holdA oldB holdB hopenA hopenB hservice

variable {incidents incidents' : Incidents} {service : String} {row new : Incident}
  {p : Incident → Bool} {clock : Instant}

@[simp] theorem mem_openOf : row ∈ incidents.openOf service ↔
    row ∈ incidents.table ∧ row.service = service ∧ row.resolvedAt = none := by
  simp [openOf, Table.mem_def]

theorem toState_ne_healthy (h : row ∈ incidents.openOf service) : row.toState ≠ .healthy := by
  obtain ⟨hmem, -, hopen⟩ := mem_openOf.mp h
  intro hhealthy
  have := (incidents.shape row hmem).mpr hhealthy
  rw [hopen] at this
  cases this

theorem openOf_insert? (h : incidents.insert? new = some incidents') :
    row ∈ incidents'.openOf service ↔
      row ∈ incidents.openOf service ∨ row = new ∧ new.service = service ∧ new.resolvedAt = none := by
  rw [insert?] at h
  split at h
  · cases h
  · rename_i table hinsert
    split_ifs at h
    cases h
    rw [mem_openOf, mem_openOf, Table.mem_insert? hinsert]
    constructor
    · rintro ⟨hold | rfl, hservice, hopen⟩
      · exact .inl ⟨hold, hservice, hopen⟩
      · exact .inr ⟨rfl, hservice, hopen⟩
    · rintro (⟨hold, hservice, hopen⟩ | ⟨rfl, hservice, hopen⟩)
      · exact ⟨.inl hold, hservice, hopen⟩
      · exact ⟨.inr rfl, hservice, hopen⟩

theorem exists_insert? (hfree : new.id ∉ incidents.table.rows.map (·.id)) (hshape : new.Shape)
    (hindexed : new.Indexed → ∀ other ∈ incidents.openOf new.service, other.suppressed = true) :
    ∃ incidents', incidents.insert? new = some incidents' := by
  have hrefused : ∀ other ∈ incidents.table.rows, new.Indexed → other.Indexed → other.service ≠ new.service := by
    intro other hother hnew hopen hservice
    have hsuppressed := hindexed hnew other (mem_openOf.mpr ⟨hother, hservice, hopen.1⟩)
    rw [hopen.2] at hsuppressed
    cases hsuppressed
  rw [insert?]
  split
  · rename_i hnone
    rw [Table.insert?, dif_neg hfree] at hnone
    cases hnone
  · rw [dif_pos ⟨hshape, hrefused⟩]
    exact ⟨_, rfl⟩

theorem mem_resolve : row ∈ (incidents.resolve p clock).table ↔ ∃ old ∈ incidents.table,
    (if p old && old.resolvedAt.isNone then old.close clock else old) = row :=
  @Table.mem_update Incident _ _ _ _ (·.close clock) (fun _ => rfl) _

theorem openOf_resolve : row ∈ (incidents.resolve p clock).openOf service ↔
    row ∈ incidents.openOf service ∧ p row = false := by
  rw [mem_openOf, mem_openOf]
  constructor
  · rintro ⟨hmem, hservice, hopen⟩
    obtain ⟨old, hold, rfl⟩ := mem_resolve.mp hmem
    by_cases hmatch : (p old && old.resolvedAt.isNone) = true
    · rw [if_pos hmatch] at hopen
      cases hopen
    · rw [if_neg hmatch] at hservice hopen ⊢
      simp only [hopen, Option.isNone_none, Bool.and_true, Bool.not_eq_true] at hmatch
      exact ⟨⟨hold, hservice, hopen⟩, hmatch⟩
  · rintro ⟨⟨hmem, hservice, hopen⟩, hother⟩
    refine ⟨mem_resolve.mpr ⟨row, hmem, if_neg ?_⟩, hservice, hopen⟩
    simp [hother]

end Incidents

/-! ### Transitions -/

/-- What one run concluded about one service. -/
structure Transition where
  service : String
  /-- The word it was in before this run, -/
  fromState : ServiceState
  /-- and the word it is in now. -/
  toState : ServiceState
  summary : String
  detail : String

namespace Transition

/-- Whether this pair of states means anything happened. -/
def isEvent (transition : Transition) : Bool :=
  transition.fromState ≠ transition.toState ∧ transition.toState ≠ .unknown

/-- Whether this is a recovery. -/
def isRecovery (transition : Transition) : Bool :=
  transition.toState = .healthy ∧ ServiceState.rank .healthy < transition.fromState.rank

theorem broken_of_isEvent {transition : Transition} (h : transition.isEvent = true)
    (hrecovery : transition.isRecovery = false) :
    transition.toState = .degraded ∨ transition.toState = .down := by
  obtain ⟨service, fromState, toState, summary, detail⟩ := transition
  cases fromState <;> cases toState <;> simp_all [isEvent, isRecovery, ServiceState.rank]

end Transition

/-- Compare one service's previous state, as the open incident has it, with the one this run concluded. -/
def detect (previous : Option Incident) (report : ServiceReport) : Option Transition :=
  let fromState := (previous.map (·.toState)).getD .healthy
  let transition : Transition := ⟨report.service, fromState, canonicalState report.state, report.message, report.detail⟩
  if transition.isEvent then some transition else none

/-- A row of `health_maintenance_windows`. -/
structure MaintenanceWindow where
  startsAt : Instant
  endsAt : Instant
  /-- No service means every service. -/
  services : List String

/-- Whether a maintenance window covers this service at the moment. -/
def isSuppressed (windows : List MaintenanceWindow) (service : String) (moment : Instant) : Bool :=
  windows.any fun window =>
    window.startsAt ≤ moment ∧ moment < window.endsAt ∧ (window.services = [] ∨ service ∈ window.services)

/-- What `apply` did. -/
inductive IncidentOutcome where
  | opened (incident : Incident)
  | resolved (incident : Incident)
  | nothing

/-- The row of a transition. -/
def Transition.incident (transition : Transition) (suppressed : Bool) (id : Uuid) (clock : Instant) : Incident :=
  ⟨id, transition.service, transition.fromState, transition.toState, transition.summary, transition.detail, clock, none,
    suppressed⟩

/-- Open an incident for a transition, or resolve the open ones if it is a recovery. `none` is the database's error. -/
def apply (incidents : Incidents) (transition : Transition) (suppressed : Bool) (id : Uuid) (clock : Instant) :
    Option (Incidents × IncidentOutcome) :=
  if transition.isRecovery then
    let outcome : IncidentOutcome :=
      match incidents.openOf transition.service with
      | [] => .nothing
      | row :: _ => .resolved (row.close clock)
    some (incidents.resolve (fun row => row.service = transition.service) clock, outcome)
  else
    (incidents.insert? (transition.incident suppressed id clock)).map fun incidents =>
      (incidents, .opened (transition.incident suppressed id clock))

section Statements

variable {incidents incidents' : Incidents} {transition : Transition} {previous : Option Incident}
  {report : ServiceReport}
  {suppressed : Bool} {id : Uuid} {clock : Instant} {outcome : IncidentOutcome}

theorem detect_eq_some (h : detect previous report = some transition) :
    transition.service = report.service ∧ transition.toState = canonicalState report.state ∧
      transition.isEvent = true := by
  simp only [detect] at h
  split_ifs at h with hevent
  cases h
  exact ⟨rfl, rfl, hevent⟩

theorem detect_eq_none (h : detect previous report = none) :
    canonicalState report.state = .unknown ∨ (previous.map (·.toState)).getD
      .healthy = canonicalState report.state := by
  simp only [detect] at h
  split_ifs at h with hevent
  by_contra hnot
  obtain ⟨hunknown, hsame⟩ := not_or.mp hnot
  exact hevent (decide_eq_true ⟨hsame, hunknown⟩)

theorem apply_cases (h : apply incidents transition suppressed id clock = some (incidents', outcome)) :
    (transition.isRecovery = true ∧ ∀ service row,
      row ∈ incidents'.openOf service ↔ row ∈ incidents.openOf service ∧ service ≠ transition.service) ∨
    (transition.isRecovery = false ∧ ∃ new : Incident, new.toState = transition.toState ∧ ∀ service row,
      row ∈ incidents'.openOf service ↔ row ∈ incidents.openOf service ∨ row = new ∧ service = transition.service) := by
  rw [apply] at h
  split_ifs at h with hrecovery
  · obtain ⟨rfl, -⟩ := Prod.mk.inj (Option.some.inj h)
    refine .inl ⟨hrecovery, fun service row => ?_⟩
    rw [Incidents.openOf_resolve]
    refine and_congr_right fun hopen => ?_
    rw [decide_eq_false_iff_not, (Incidents.mem_openOf.mp hopen).2.1]
  · obtain ⟨inserted, hinsert, heq⟩ := Option.map_eq_some_iff.mp h
    obtain ⟨rfl, -⟩ := Prod.mk.inj heq
    refine .inr ⟨eq_false_of_ne_true hrecovery, transition.incident suppressed id clock, rfl, fun service row => ?_⟩
    rw [Incidents.openOf_insert? hinsert]
    simp [Transition.incident, eq_comm]

theorem exists_apply (hfree : id ∉ incidents.table.rows.map (·.id)) (hevent : transition.isEvent = true)
    (hindexed : transition.isRecovery = false → suppressed = false →
      ∀ row ∈ incidents.openOf transition.service, row.suppressed = true) :
    ∃ result, apply incidents transition suppressed id clock = some result := by
  rw [apply]
  split_ifs with hrecovery
  · exact ⟨_, rfl⟩
  · have hbroken := Transition.broken_of_isEvent hevent (eq_false_of_ne_true hrecovery)
    have hshape : (transition.incident suppressed id clock).Shape := by
      rcases hbroken with hword | hword <;> simp [Transition.incident, Incident.Shape, hword]
    obtain ⟨inserted, hinsert⟩ := Incidents.exists_insert? hfree hshape
      fun hnew => hindexed (eq_false_of_ne_true hrecovery) hnew.2
    exact ⟨_, by rw [hinsert]; rfl⟩

end Statements

/-! ### Passes -/

/-- What a run has probed: a report of each service, and samples. -/
structure ProbeRun where
  reports : List ServiceReport
  samples : List Sample
  distinct : (reports.map (·.service)).Nodup

/-- One service's transition, with what the database did about it. -/
structure ServiceTransition where
  transition : Transition
  outcome : IncidentOutcome
  suppressed : Bool

structure PolicyPass where
  run : ProbeRun
  now : Instant
  transitions : List ServiceTransition
  /-- The services of which an incident has been resolved by hand since it began. -/
  byHand : List String

/-- How far a pass is. -/
inductive PolicyStage where
  | idle
  /-- It goes through the reports. -/
  | reports (pass : PolicyPass) (rest : List ServiceReport)
  /-- It has found an event, -/
  | detected (pass : PolicyPass) (transition : Transition) (rest : List ServiceReport)
  /-- and looked at the maintenance windows. -/
  | judged (pass : PolicyPass) (transition : Transition) (suppressed : Bool) (rest : List ServiceReport)
  /-- It goes through the samples. -/
  | samples (pass : PolicyPass) (rest : List Sample)
  | ended

/-- The end of a pass, and the incidents it leaves. -/
structure PolicyEnding where
  pass : PolicyPass
  incidents : Incidents

/-- The tables and the passes. -/
structure Policies where
  incidents : Incidents
  windows : List MaintenanceWindow
  ledger : Ledger
  stages : ℕ → PolicyStage
  /-- The passes that an error has cut short. -/
  failed : List ℕ
  endings : List PolicyEnding

/-- What happens. -/
inductive PolicyEvent where
  /-- Pass `p` begins. -/
  | start (p : ℕ) (now : Instant) (run : ProbeRun)
  /-- `detect` of the next report, which reads `previous`. -/
  | detect (p : ℕ) (previous : Option Incident)
  | isSuppressed (p : ℕ)
  /-- `apply`, with the row's identifier and the clock. -/
  | apply (p : ℕ) (id : Uuid) (clock : Instant)
  | readThresholds (p : ℕ)
  | sample (p : ℕ) (clock : Instant)
  | finish (p : ℕ)
  /-- An incident is resolved by hand. -/
  | resolve (id : Uuid) (clock : Instant)
  /-- Maintenance windows are created or deleted. -/
  | saveWindows (windows : List MaintenanceWindow)

/-- An incident of the service has been resolved by hand. -/
def PolicyPass.note (pass : PolicyPass) (service : String) : PolicyPass :=
    { pass with byHand := service :: pass.byHand }

/-- An incident of the service has been resolved by hand. -/
def PolicyStage.note (stage : PolicyStage) (service : String) : PolicyStage :=
  match stage with
  | .reports pass rest => .reports (pass.note service) rest
  | .detected pass transition rest => .detected (pass.note service) transition rest
  | .judged pass transition suppressed rest => .judged (pass.note service) transition suppressed rest
  | .samples pass rest => .samples (pass.note service) rest
  | stage => stage

namespace Policies

/-- Before any pass. -/
def init (incidents : Incidents) (windows : List MaintenanceWindow) (ledger : Ledger) : Policies :=
  ⟨incidents, windows, ledger, fun _ => .idle, [], []⟩

/-- Pass `p` goes on. -/
def move (s : Policies) (p : ℕ) (stage : PolicyStage) : Policies :=
    { s with stages := Function.update s.stages p stage }

/-- Pass `p` fails. -/
def fail (s : Policies) (p : ℕ) : Policies := { s.move p .ended with failed := p :: s.failed }

def step (thresholds : Thresholds) (s : Policies) : PolicyEvent → Option Policies
  | .start p now run =>
    match s.stages p with
    | .idle => some (s.move p (.reports ⟨run, now, [], []⟩ run.reports))
    | _ => none
  | .detect p previous =>
    match s.stages p with
    | .reports pass (report :: rest) =>
      if report.service = hostService then some (s.move p (.reports pass rest))
      else if s.incidents.OpenIncident report.service previous then
        match Health.detect previous report with
        | none => some (s.move p (.reports pass rest))
        | some transition => some (s.move p (.detected pass transition rest))
      else none
    | _ => none
  | .isSuppressed p =>
    match s.stages p with
    | .detected pass transition rest =>
      some (s.move p (.judged pass transition (Health.isSuppressed s.windows transition.service pass.now) rest))
    | _ => none
  | .apply p id clock =>
    match s.stages p with
    | .judged pass transition suppressed rest =>
      if id ∈ s.incidents.table.rows.map (·.id) then none
      else
        match Health.apply s.incidents transition suppressed id clock with
        | some (incidents, outcome) =>
          let transitions := pass.transitions ++ [⟨transition, outcome, suppressed⟩]
          some { s.move p (.reports { pass with transitions } rest) with incidents }
        | none => some (s.fail p)
    | _ => none
  | .readThresholds p =>
    match s.stages p with
    | .reports pass [] => some (s.move p (.samples pass pass.run.samples))
    | _ => none
  | .sample p clock =>
    match s.stages p with
    | .samples pass (sample :: rest) =>
      match applySample thresholds s.ledger sample pass.now clock with
      | some (ledger, _) => some { s.move p (.samples pass rest) with ledger }
      | none => some (s.fail p)
    | _ => none
  | .finish p =>
    match s.stages p with
    | .samples pass [] => some { s.move p .ended with endings := s.endings ++ [⟨pass, s.incidents⟩] }
    | _ => none
  | .resolve id clock =>
    match s.incidents.table.find? id with
    | some row =>
      some { s with
        incidents := s.incidents.resolve (·.id = id) clock
        stages := fun q => if row.resolvedAt = none then (s.stages q).note row.service else s.stages q }
    | none => some s
  | .saveWindows windows => some { s with windows }

end Policies

/-- **What the incidents say of a service's report**: found degraded or down, the service has an open incident with
that word, unless one was resolved by hand; found healthy, it has no open incident. -/
structure ServiceReport.Told (report : ServiceReport) (byHand : List String) (incidents : Incidents) : Prop where
  broken : canonicalState report.state = .degraded ∨ canonicalState report.state = .down → report.service ∉ byHand →
    ∃ row ∈ incidents.openOf report.service, row.toState = canonicalState report.state
  healthy : canonicalState report.state = .healthy → incidents.openOf report.service = []

/-- **What a pass should leave**: the incidents say what it has found of every service. -/
def PolicyEnding.Sound (ending : PolicyEnding) : Prop :=
  ∀ report ∈ ending.pass.run.reports, report.service ≠ hostService → report.Told ending.pass.byHand ending.incidents

/-- **The timeline is right**: no pass is cut short, no service has two open unsuppressed incidents, and every pass has
left what it should. -/
structure Policies.Sound (s : Policies) : Prop where
  complete : s.failed = []
  oneOpen : ∀ service, ∀ row ∈ s.incidents.openOf service, ∀ other ∈ s.incidents.openOf service,
    row.suppressed = false → other.suppressed = false → row = other
  endings : ∀ ending ∈ s.endings, ending.Sound

/-- The pass at a stage, and the services it has still to deal with. -/
def PolicyStage.view : PolicyStage → Option (PolicyPass × List String)
  | .reports pass rest => some (pass, rest.map (·.service))
  | .detected pass transition rest => some (pass, transition.service :: rest.map (·.service))
  | .judged pass transition _ rest => some (pass, transition.service :: rest.map (·.service))
  | .samples pass _ => some (pass, [])
  | _ => none

/-- A pass has dealt with a report. -/
def PolicyStage.Settled (stage : PolicyStage) (pass : PolicyPass) (report : ServiceReport) : Prop :=
  ∃ pending, stage.view = some (pass, pending) ∧ report ∈ pass.run.reports ∧ report.service ∉ pending ∧
    report.service ≠ hostService

/-- **Steady passes.** A critical reading can be stored. Where a pass opens an incident that no window suppresses, the
open incidents of the service are all suppressed; and while a pass that has dealt with a service goes on, no other
opens an incident of the service if it was found healthy, nor resolves them if it was found degraded or down. -/
def Policies.Steady (thresholds : Thresholds) (s : Policies) : PolicyEvent → Prop
  | .start _ _ run => ∀ sample ∈ run.samples, Critical thresholds sample →
      ∀ value, sample.value = some value → storable value = true
  | .apply p _ _ => ∀ pass transition suppressed rest, s.stages p = .judged pass transition suppressed rest →
      (transition.isRecovery = false → suppressed = false →
        ∀ row ∈ s.incidents.openOf transition.service, row.suppressed = true) ∧
      ∀ q, q ≠ p → ∀ pass' report, (s.stages q).Settled pass' report → report.service = transition.service →
        if transition.isRecovery = true then canonicalState report.state = .healthy ∨
          canonicalState report.state = .unknown
        else canonicalState report.state ≠ .healthy
  | _ => True

/-! ### What the statements keep of a report -/

namespace ServiceReport

variable {incidents incidents' : Incidents} {transition : Transition} {previous : Option Incident}
  {report : ServiceReport}
  {suppressed : Bool} {id : Uuid} {clock : Instant} {outcome : IncidentOutcome} {byHand : List String}
    {p : Incident → Bool}

/-- A read that shows no event shows that the report is told. -/
theorem told_of_detect (hread : incidents.OpenIncident report.service previous) (h : detect previous report = none) :
    report.Told byHand incidents := by
  rcases detect_eq_none h with hunknown | hsame
  · constructor
    · intro hbroken
      rw [hunknown] at hbroken
      rcases hbroken with hword | hword <;> cases hword
    · intro hhealthy
      rw [hunknown] at hhealthy
      cases hhealthy
  · cases previous with
    | none =>
      constructor
      · intro hbroken
        rw [← hsame] at hbroken
        rcases hbroken with hword | hword <;> cases hword
      · exact fun _ => hread
    | some row =>
      constructor
      · exact fun _ _ => ⟨row, hread.1, hsame⟩
      · exact fun hhealthy => absurd (hsame.trans hhealthy) (Incidents.toState_ne_healthy hread.1)

theorem told_of_apply (h : apply incidents transition suppressed id clock = some (incidents', outcome))
    (hevent : transition.isEvent = true) (hservice : report.service = transition.service)
    (hword : transition.toState = canonicalState report.state) : report.Told byHand incidents' := by
  rcases apply_cases h with ⟨hrecovery, hopen⟩ | ⟨hrecovery, new, hnew, hopen⟩
  · have hhealthy : transition.toState = .healthy := (of_decide_eq_true hrecovery).1
    constructor
    · intro hbroken
      rw [← hword, hhealthy] at hbroken
      rcases hbroken with hword | hword <;> cases hword
    · intro _
      rw [List.eq_nil_iff_forall_not_mem]
      intro row hrow
      exact ((hopen _ row).mp hrow).2 hservice
  · constructor
    · exact fun _ _ => ⟨new, (hopen _ new).mpr (.inr ⟨rfl, hservice⟩), hnew.trans hword⟩
    · intro hhealthy
      have hbroken := Transition.broken_of_isEvent hevent hrecovery
      rw [hword, hhealthy] at hbroken
      rcases hbroken with hword | hword <;> cases hword

/-- A transition of another service, or one that does not contradict the report, leaves it told. -/
theorem Told.apply (h : report.Told byHand incidents)
    (happly : apply incidents transition suppressed id clock = some (incidents', outcome))
    (hagree : report.service = transition.service →
      if transition.isRecovery = true then canonicalState report.state = .healthy ∨
        canonicalState report.state = .unknown
      else canonicalState report.state ≠ .healthy) : report.Told byHand incidents' := by
  rcases apply_cases happly with ⟨hrecovery, hopen⟩ | ⟨hrecovery, new, -, hopen⟩
  · simp only [hrecovery, if_true] at hagree
    constructor
    · intro hbroken hhand
      obtain ⟨row, hrow, hword⟩ := h.broken hbroken hhand
      refine ⟨row, (hopen _ row).mpr ⟨hrow, fun hservice => ?_⟩, hword⟩
      rcases hagree hservice with hword | hword <;> simp [hword] at hbroken
    · intro hhealthy
      rw [List.eq_nil_iff_forall_not_mem]
      intro row hrow
      have hold := ((hopen _ row).mp hrow).1
      rw [h.healthy hhealthy] at hold
      cases hold
  · simp only [hrecovery, Bool.false_eq_true, if_false] at hagree
    constructor
    · intro hbroken hhand
      obtain ⟨row, hrow, hword⟩ := h.broken hbroken hhand
      exact ⟨row, (hopen _ row).mpr (.inl hrow), hword⟩
    · intro hhealthy
      rw [List.eq_nil_iff_forall_not_mem]
      intro row hrow
      rcases (hopen _ row).mp hrow with hold | ⟨-, hservice⟩
      · rw [h.healthy hhealthy] at hold
        cases hold
      · exact hagree hservice hhealthy

theorem Told.resolve {byHand' : List String} (h : report.Told byHand incidents)
    (hsub : ∀ service ∈ byHand, service ∈ byHand')
    (hrows : report.service ∉ byHand' → ∀ row ∈ incidents.openOf report.service, p row = false) :
    report.Told byHand' (incidents.resolve p clock) := by
  constructor
  · intro hbroken hhand
    obtain ⟨row, hrow, hword⟩ := h.broken hbroken fun hmem => hhand (hsub _ hmem)
    exact ⟨row, Incidents.openOf_resolve.mpr ⟨hrow, hrows hhand row hrow⟩, hword⟩
  · intro hhealthy
    rw [List.eq_nil_iff_forall_not_mem]
    intro row hrow
    have hold := (Incidents.openOf_resolve.mp hrow).1
    rw [h.healthy hhealthy] at hold
    cases hold

end ServiceReport

/-! ### What the steps keep -/

/-- Critical readings of a run can be stored. -/
def ProbeRun.Storable (thresholds : Thresholds) (run : ProbeRun) : Prop :=
  ∀ sample ∈ run.samples, Critical thresholds sample → ∀ value, sample.value = some value → storable value = true

/-- The transition is of the report before these. -/
def PolicyPass.About (pass : PolicyPass) (transition : Transition) (rest : List ServiceReport) : Prop :=
  ∃ report, report :: rest <:+ pass.run.reports ∧ transition.service = report.service ∧
    transition.toState = canonicalState report.state ∧ transition.isEvent = true

/-- What holds of every stage of a pass. -/
def PolicyStage.Fine (thresholds : Thresholds) : PolicyStage → Prop
  | .reports pass rest => rest <:+ pass.run.reports ∧ pass.run.Storable thresholds
  | .detected pass transition rest => pass.About transition rest ∧ pass.run.Storable thresholds
  | .judged pass transition _ rest => pass.About transition rest ∧ pass.run.Storable thresholds
  | .samples pass rest => rest <:+ pass.run.samples ∧ pass.run.Storable thresholds
  | _ => True

namespace Policies

/-- **What holds of every state.** What a pass has dealt with is told. -/
structure Inv (thresholds : Thresholds) (s : Policies) : Prop where
  fine : ∀ q, (s.stages q).Fine thresholds
  told : ∀ q pass report, (s.stages q).Settled pass report → report.Told pass.byHand s.incidents
  complete : s.failed = []
  endings : ∀ ending ∈ s.endings, ending.Sound

variable {thresholds : Thresholds} {s t : Policies} {p q : ℕ} {stage : PolicyStage} {pass pass' : PolicyPass}
  {report : ServiceReport} {transition : Transition} {rest : List ServiceReport} {suppressed : Bool} {e : PolicyEvent}
  {es : List PolicyEvent} {incidents incidents' : Incidents} {id : Uuid} {clock : Instant} {outcome : IncidentOutcome}
  {windows : List MaintenanceWindow} {ledger : Ledger} {service : String}

theorem stages_move_self : (s.move p stage).stages p = stage := Function.update_self ..

theorem stages_move_of_ne (h : q ≠ p) : (s.move p stage).stages q = s.stages q := Function.update_of_ne h ..

theorem Inv.move (h : s.Inv thresholds) (hfine : stage.Fine thresholds)
    (htold : ∀ pass report, stage.Settled pass report → report.Told pass.byHand s.incidents) :
    (s.move p stage).Inv thresholds := by
  refine ⟨fun q => ?_, fun q pass report hsettled => ?_, h.complete, h.endings⟩
  · by_cases hq : q = p
    · rw [hq, stages_move_self]
      exact hfine
    · rw [stages_move_of_ne hq]
      exact h.fine q
  · by_cases hq : q = p
    · rw [hq, stages_move_self] at hsettled
      exact htold pass report hsettled
    · rw [stages_move_of_ne hq] at hsettled
      exact h.told q pass report hsettled

theorem eq_of_service {run : ProbeRun} {a b : ServiceReport} (ha : a ∈ run.reports) (hb : b ∈ run.reports)
    (h : a.service = b.service) : a = b :=
  List.inj_on_of_nodup_map run.distinct ha hb h

theorem not_settled_start {run : ProbeRun} {now : Instant} :
    ¬ (PolicyStage.reports ⟨run, now, [], []⟩ run.reports).Settled pass report := by
  rintro ⟨pending, hview, hmem, hpending, -⟩
  cases hview
  exact hpending (List.mem_map.mpr ⟨report, hmem, rfl⟩)

theorem settled_of_cons {report' : ServiceReport} (hsuffix : report' :: rest <:+ pass.run.reports)
    (h : (PolicyStage.reports pass rest).Settled pass' report) :
    (PolicyStage.reports pass (report' :: rest)).Settled pass' report ∨ pass' = pass ∧ report = report' := by
  obtain ⟨pending, hview, hmem, hpending, hhost⟩ := h
  cases hview
  by_cases hservice : report.service = report'.service
  · exact .inr ⟨rfl, eq_of_service hmem (hsuffix.subset (.head _)) hservice⟩
  · refine .inl ⟨_, rfl, hmem, ?_, hhost⟩
    rw [List.map_cons, List.mem_cons, not_or]
    exact ⟨hservice, hpending⟩

theorem settled_of_detected {report' : ServiceReport} (hservice : transition.service = report'.service)
    (h : (PolicyStage.detected pass transition rest).Settled pass' report) :
    (PolicyStage.reports pass (report' :: rest)).Settled pass' report := by
  obtain ⟨pending, hview, hmem, hpending, hhost⟩ := h
  refine ⟨pending, ?_, hmem, hpending, hhost⟩
  rw [← hview, PolicyStage.view, PolicyStage.view, hservice, List.map_cons]

/-- What `detect` leaves. -/
theorem Inv.detect (h : s.Inv thresholds) (hstage : s.stages p = .reports pass (report :: rest))
    (hread : report.service ≠ hostService →
      ∃ previous, s.incidents.OpenIncident report.service previous ∧ Health.detect previous report = none) :
    (s.move p (.reports pass rest)).Inv thresholds := by
  have hfine := h.fine p
  rw [hstage] at hfine
  refine h.move ⟨(List.suffix_cons report rest).trans hfine.1, hfine.2⟩ fun pass' report' hsettled => ?_
  rcases settled_of_cons hfine.1 hsettled with hold | ⟨rfl, rfl⟩
  · exact h.told p pass' report' (hstage ▸ hold)
  · obtain ⟨-, -, -, -, hhost⟩ := hsettled
    obtain ⟨previous, hprevious, hnone⟩ := hread hhost
    exact ServiceReport.told_of_detect hprevious hnone

/-- The incidents change by an `apply`. -/
theorem Inv.apply (h : s.Inv thresholds) (hstage : s.stages p = .judged pass transition suppressed rest)
    (hok : s.Steady thresholds (.apply p id clock))
    (happly : Health.apply s.incidents transition suppressed id clock = some (incidents, outcome)) :
    ({ s with incidents } : Policies).Inv thresholds := by
  refine ⟨h.fine, fun q pass' report hsettled => ?_, h.complete, h.endings⟩
  refine (h.told q pass' report hsettled).apply happly fun hservice => ?_
  by_cases hq : q = p
  · -- the pass has still to deal with the service
    obtain ⟨pending, hview, -, hpending, -⟩ := hsettled
    simp only [hq, hstage, PolicyStage.view] at hview
    cases hview
    exact absurd (hservice ▸ List.mem_cons_self) hpending
  · exact (hok pass transition suppressed rest hstage).2 q hq pass' report hsettled hservice

theorem Inv.applied {transitions : List ServiceTransition} (h : s.Inv thresholds)
    (hstage : s.stages p = .judged pass transition suppressed rest) (hok : s.Steady thresholds (.apply p id clock))
    (happly : Health.apply s.incidents transition suppressed id clock = some (incidents, outcome)) :
    ({ s.move p (.reports { pass with transitions } rest) with incidents } : Policies).Inv thresholds := by
  have hfine := h.fine p
  rw [hstage] at hfine
  obtain ⟨⟨report, hsuffix, hservice, hword, hevent⟩, hstorable⟩ := hfine
  refine (h.apply hstage hok happly).move ⟨(List.suffix_cons report rest).trans hsuffix, hstorable⟩
    fun pass' report' hsettled => ?_
  obtain ⟨pending, hview, hmem, hpending, hhost⟩ := hsettled
  cases hview
  by_cases hsame : report'.service = report.service
  · obtain rfl := eq_of_service hmem (hsuffix.subset (.head _)) hsame
    exact ServiceReport.told_of_apply happly hevent hservice.symm hword
  · refine (h.apply hstage hok happly).told p pass report' ⟨_, by rw [hstage]; rfl, hmem, ?_, hhost⟩
    rw [List.mem_cons, not_or, hservice]
    exact ⟨hsame, hpending⟩

theorem settled_of_note (h : (stage.note service).Settled pass report) :
    ∃ before, stage.Settled before report ∧ pass = before.note service := by
  obtain ⟨pending, hview, hmem, hpending, hhost⟩ := h
  cases stage with
  | idle => cases hview
  | ended => cases hview
  | reports before rest =>
    cases hview
    exact ⟨before, ⟨_, rfl, hmem, hpending, hhost⟩, rfl⟩
  | detected before transition rest =>
    cases hview
    exact ⟨before, ⟨_, rfl, hmem, hpending, hhost⟩, rfl⟩
  | judged before transition suppressed rest =>
    cases hview
    exact ⟨before, ⟨_, rfl, hmem, hpending, hhost⟩, rfl⟩
  | samples before rest =>
    cases hview
    exact ⟨before, ⟨_, rfl, hmem, hpending, hhost⟩, rfl⟩

theorem Inv.resolve {row : Incident} (h : s.Inv thresholds) (hrow : s.incidents.table.find? id = some row) :
    ({ s with
      incidents := s.incidents.resolve (·.id = id) clock
      stages := fun q => if row.resolvedAt = none then (s.stages q).note row.service else s.stages q } : Policies).Inv
        thresholds := by
  obtain ⟨hmem, hid⟩ := Table.find?_eq_some.mp hrow
  have hother : ∀ {service : String}, (row.resolvedAt = none → service ≠ row.service) →
      ∀ other ∈ s.incidents.openOf service, decide (other.id = id) = false := by
    intro service hservice other hopen
    rw [decide_eq_false_iff_not]
    intro hsame
    obtain ⟨hotherMem, hotherService, hotherOpen⟩ := Incidents.mem_openOf.mp hopen
    obtain rfl := Table.eq_of_key hotherMem hmem (hsame.trans hid.symm)
    exact hservice hotherOpen hotherService.symm
  refine ⟨fun q => ?_, fun q pass report hsettled => ?_, h.complete, h.endings⟩
  · have hfine := h.fine q
    simp only
    split_ifs
    · cases hstage : s.stages q <;> rw [hstage] at hfine <;> exact hfine
    · exact hfine
  · simp only at hsettled
    split_ifs at hsettled with hopen
    · obtain ⟨before, hbefore, rfl⟩ := settled_of_note hsettled
      refine (h.told q before report hbefore).resolve (fun service hservice =>
        List.mem_cons_of_mem _ hservice) fun hhand => ?_
      exact hother fun _ => (not_or.mp (mt List.mem_cons.mpr hhand)).1
    · exact (h.told q pass report hsettled).resolve (fun _ hservice => hservice) fun _ =>
        hother fun hnone => absurd hnone hopen

theorem Inv.step_detect (h : s.Inv thresholds) {previous : Option Incident}
    (hstep : step thresholds s (.detect p previous) = some t) : t.Inv thresholds := by
  simp only [Policies.step] at hstep
  split at hstep
  · rename_i pass report rest hstage
    split_ifs at hstep with hhost hread
    · cases hstep
      exact h.detect hstage fun hother => absurd hhost hother
    · split at hstep
      · rename_i hnone
        cases hstep
        exact h.detect hstage fun _ => ⟨previous, hread, hnone⟩
      · rename_i transition hsome
        cases hstep
        obtain ⟨hservice, hword, hevent⟩ := detect_eq_some hsome
        have hfine := h.fine p
        rw [hstage] at hfine
        refine h.move ⟨⟨report, hfine.1, hservice, hword, hevent⟩, hfine.2⟩ fun pass' report' hsettled => ?_
        exact h.told p pass' report' (hstage ▸ settled_of_detected hservice hsettled)
  · cases hstep

theorem Inv.step_apply (h : s.Inv thresholds) {id : Uuid} {clock : Instant}
    (hok : s.Steady thresholds (.apply p id clock)) (hstep : step thresholds s (.apply p id clock) = some t) :
    t.Inv thresholds := by
  simp only [Policies.step] at hstep
  split at hstep
  · rename_i pass transition suppressed rest hstage
    split_ifs at hstep with hfree
    have hfine := h.fine p
    rw [hstage] at hfine
    obtain ⟨⟨report, -, -, -, hevent⟩, -⟩ := hfine
    split at hstep
    · rename_i incidents outcome happly
      cases hstep
      exact h.applied hstage hok happly
    · rename_i hrefused
      have happly : ∃ result, Health.apply s.incidents transition suppressed id clock = some result :=
        exists_apply hfree hevent (hok pass transition suppressed rest hstage).1
      obtain ⟨result, hresult⟩ := happly
      rw [hresult] at hrefused
      cases hrefused
  · cases hstep

theorem Inv.step_sample (h : s.Inv thresholds) {clock : Instant}
    (hstep : step thresholds s (.sample p clock) = some t) : t.Inv thresholds := by
  simp only [Policies.step] at hstep
  split at hstep
  · rename_i pass sample rest hstage
    have hfine := h.fine p
    rw [hstage] at hfine
    split at hstep
    · rename_i ledger check hsample
      cases hstep
      have hmove : (s.move p (.samples pass rest)).Inv thresholds :=
        h.move ⟨(List.suffix_cons sample rest).trans hfine.1, hfine.2⟩ fun pass' report hsettled =>
          h.told p pass' report (hstage ▸ hsettled)
      exact ⟨hmove.fine, hmove.told, hmove.complete, hmove.endings⟩
    · rename_i hrefused
      have hsample : ∃ result, applySample thresholds s.ledger sample pass.now clock = some result :=
        exists_applySample (hfine.2 sample (hfine.1.subset (.head _)))
      obtain ⟨result, hresult⟩ := hsample
      rw [hresult] at hrefused
      cases hrefused
  · cases hstep

theorem Inv.step_finish (h : s.Inv thresholds) (hstep : step thresholds s (.finish p) = some t) :
    t.Inv thresholds := by
  simp only [Policies.step] at hstep
  split at hstep
  · rename_i pass hstage
    cases hstep
    have hmove : (s.move p .ended).Inv thresholds := by
      refine h.move trivial fun pass' report hsettled => ?_
      obtain ⟨pending, hview, -⟩ := hsettled
      cases hview
    refine ⟨hmove.fine, hmove.told, h.complete, fun ending hending => ?_⟩
    rcases List.mem_append.mp hending with hold | hnew
    · exact h.endings ending hold
    · obtain rfl := List.mem_singleton.mp hnew
      intro report hreport hhost
      exact h.told p pass report ⟨[], by rw [hstage]; rfl, hreport, List.not_mem_nil, hhost⟩
  · cases hstep

/-- **What the steps keep.** -/
theorem Inv.step (h : s.Inv thresholds) (hok : s.Steady thresholds e) (hstep : step thresholds s e = some t) :
    t.Inv thresholds := by
  cases e with
  | start p now run =>
    simp only [Policies.step] at hstep
    split at hstep
    · cases hstep
      exact h.move ⟨List.suffix_rfl, hok⟩ fun pass report hsettled => absurd hsettled not_settled_start
    · cases hstep
  | detect p previous => exact h.step_detect hstep
  | isSuppressed p =>
    simp only [Policies.step] at hstep
    split at hstep
    · rename_i pass transition rest hstage
      cases hstep
      have hfine := h.fine p
      rw [hstage] at hfine
      exact h.move hfine fun pass' report hsettled => h.told p pass' report (hstage ▸ hsettled)
    · cases hstep
  | apply p id clock => exact h.step_apply hok hstep
  | readThresholds p =>
    simp only [Policies.step] at hstep
    split at hstep
    · rename_i pass hstage
      cases hstep
      have hfine := h.fine p
      rw [hstage] at hfine
      exact h.move ⟨List.suffix_rfl, hfine.2⟩ fun pass' report hsettled => h.told p pass' report (hstage ▸ hsettled)
    · cases hstep
  | sample p clock => exact h.step_sample hstep
  | finish p => exact h.step_finish hstep
  | resolve id clock =>
    simp only [Policies.step] at hstep
    split at hstep
    · rename_i row hrow
      cases hstep
      exact h.resolve hrow
    · cases hstep
      exact h
  | saveWindows windows =>
    cases hstep
    exact ⟨h.fine, h.told, h.complete, h.endings⟩

theorem Inv.init : (init incidents windows ledger).Inv thresholds := by
  refine ⟨fun _ => trivial, fun q pass report hsettled => ?_, rfl, fun ending hending => ?_⟩
  · obtain ⟨pending, hview, -⟩ := hsettled
    cases hview
  · cases hending

theorem Inv.sound (h : s.Inv thresholds) : s.Sound := by
  refine ⟨h.complete, fun service row hrow other hother hrowOpen hotherOpen => ?_, h.endings⟩
  obtain ⟨hmem, hservice, hopen⟩ := Incidents.mem_openOf.mp hrow
  obtain ⟨hmem', hservice', hopen'⟩ := Incidents.mem_openOf.mp hother
  exact s.incidents.oneOpen row hmem other hmem' ⟨hopen, hrowOpen⟩ ⟨hopen', hotherOpen⟩ (hservice.trans hservice'.symm)

/-- **The timeline is right** in a run of steady passes. -/
theorem run_timeline (h : Run (step thresholds) (Steady thresholds) (init incidents windows ledger) es s) : s.Sound :=
  (h.invariant Inv.init fun _ _ _ hinv hok hstep => hinv.step hok hstep).sound

/-! ### Two runs -/

/-- No metric has a threshold. -/
def noThresholds : Thresholds := fun _ => none

/-- No service has had an incident. -/
def noIncidents : Incidents :=
  ⟨⟨[], by decide⟩, List.forall_iff_forall_mem.mp (by decide), fun _ hrow => absurd hrow List.not_mem_nil⟩

/-- A run that finds redis in a state. -/
def redisRun (state : String) : ProbeRun := ⟨[⟨"redis", state, "redis is " ++ state, "{}"⟩], [], by simp⟩

/-- A pass that finds redis down, and one that finds it healthy. -/
def twoPasses : List PolicyEvent :=
  [.start 1 0 (redisRun "down"), .detect 1 none, .isSuppressed 1, .apply 1 7 5, .readThresholds 1, .finish 1,
    .start 2 60 (redisRun "healthy"),
    .detect 2 (some ⟨7, "redis", .healthy, .down, "redis is down", "{}", 5, none, false⟩),
    .isSuppressed 2, .apply 2 8 65, .readThresholds 2, .finish 2]

/-- The incident of the first is resolved by the second. -/
theorem run_timeline_recovered : ∃ s,
    Run (step noThresholds) (Steady noThresholds) (init noIncidents [] Passes.noBreaches)
    twoPasses s ∧
      s.incidents.table.rows.map (fun row => (row.id, row.resolvedAt)) = [(7, some 65)] ∧ s.endings.length = 2 ∧
      s.Sound := by
  have hrun : ∃ s, Run (step noThresholds) (Steady noThresholds) (init noIncidents [] Passes.noBreaches)
      twoPasses s ∧
      s.incidents.table.rows.map (fun row => (row.id, row.resolvedAt)) = [(7, some 65)] ∧ s.endings.length = 2 := by
    refine ⟨_, .cons ?_ rfl (.cons trivial rfl (.cons trivial rfl (.cons ?_ rfl (.cons trivial rfl (.cons trivial rfl
      (.cons ?_ rfl (.cons trivial rfl (.cons trivial rfl (.cons ?_ rfl (.cons trivial rfl
      (.cons trivial rfl .nil))))))))))), rfl, rfl⟩
    · exact fun sample hsample => absurd hsample List.not_mem_nil
    · intro pass transition suppressed rest hstage
      refine ⟨fun _ _ row hrow => absurd (Incidents.mem_openOf.mp hrow).1 List.not_mem_nil, fun q hq pass' report => ?_⟩
      rintro ⟨pending, hview, -⟩
      rcases q with _ | _ | q
      · cases hview
      · exact absurd rfl hq
      · cases hview
    · exact fun sample hsample => absurd hsample List.not_mem_nil
    · intro pass transition suppressed rest hstage
      obtain ⟨rfl, rfl, rfl, rfl⟩ := PolicyStage.judged.inj hstage
      refine ⟨fun hrecovery => (nomatch hrecovery), fun q hq pass' report => ?_⟩
      rintro ⟨pending, hview, -⟩
      rcases q with _ | _ | _ | q
      · cases hview
      · cases hview
      · exact absurd rfl hq
      · cases hview
  obtain ⟨s, hrun, hrows, hendings⟩ := hrun
  exact ⟨s, hrun, hrows, hendings, run_timeline hrun⟩

/-- A service that goes from degraded to down ends the pass. -/
theorem worsening_refused : ∃ s, Run (step noThresholds) Any (init noIncidents [] Passes.noBreaches)
    [.start 1 0 (redisRun "degraded"), .detect 1 none, .isSuppressed 1, .apply 1 7 5, .readThresholds 1, .finish 1,
      .start 2 60 (redisRun "down"),
      .detect 2 (some ⟨7, "redis", .healthy, .degraded, "redis is degraded", "{}", 5, none, false⟩),
      .isSuppressed 2, .apply 2 8 65] s ∧ ¬ s.Sound := by
  have hexec : (exec (step noThresholds) (init noIncidents [] Passes.noBreaches)
      [.start 1 0 (redisRun "degraded"), .detect 1 none, .isSuppressed 1, .apply 1 7 5, .readThresholds 1, .finish 1,
        .start 2 60 (redisRun "down"),
        .detect 2 (some ⟨7, "redis", .healthy, .degraded, "redis is degraded", "{}", 5, none, false⟩),
        .isSuppressed 2, .apply 2 8 65]).map failed = some [2] := by
    decide +kernel
  obtain ⟨s, hrun, hfailed⟩ := Run.of_exec_map hexec
  refine ⟨s, hrun, fun h => ?_⟩
  rw [h.complete] at hfailed
  cases hfailed

end Policies

end Omnion.Health
