import Mathlib.Tactic.Linarith
import Omnion.Workflows.Lease

/-!
# Waits

A wait step is claimed twice: the first claim parks it, and the second, once its
deadline has passed, resumes it. The attempt number is all that tells the two apart.

## What is proved

* `run_parks_once` — in the runs where a step is claimed only when no earlier claim on
  it is still to be reported on, it is also parked exactly once.
* `parked_again` — a runner that parks late, after its step was given back and
  resumed, parks it a second time.

## Honest scope

The park's deadline and the database's `now()` are read from one clock.
-/

namespace Omnion.Workflows

/-- The report parks the step. -/
def StepWrite.isPark : StepWrite → Bool
  | .park _ => true
  | _ => false

/-- The step a thread is about to park, and until when. -/
def Thread.park : Thread → Option (Uuid × Instant)
  | .writing id _ (.park availableAt) _ => some (id, availableAt)
  | _ => none

namespace Engine

def firstClaim (s : Engine) (id : Uuid) : Option Instant := (s.claims.find? (·.1 = id)).map (·.2)

/-- How often a step was parked. -/
def parks (s : Engine) (id : Uuid) : ℕ := ((s.reportsOn id).filter (·.write.isPark)).length

/-- The instant is no earlier than the step's first claim and its seconds. -/
def DueBy (s : Engine) (r : WorkflowStep) (at' : Instant) : Prop :=
  ∃ claimed, s.firstClaim r.id = some claimed ∧
    ∀ n, waitSecondsFrom r.params = .ok n → Time.after claimed (Time.seconds n) ≤ at'

/-- What the clock says of a wait step. -/
structure WaitTimed (s : Engine) (r : WorkflowStep) : Prop where
  claimed : 1 ≤ r.attempts → ∃ claimed, s.firstClaim r.id = some claimed ∧ claimed ≤ s.store.now
  pending : r.status = .pending → r.attempts = 0
  waiting : r.status = .waiting → s.DueBy r r.availableAt
  resumed : 2 ≤ r.attempts → s.DueBy r s.store.now
  succeeded : r.status = .succeeded → ∃ finished, r.finishedAt = some finished ∧ s.DueBy r finished

/-- **The invariant on the clock**: a wait is resumed, parked and over no earlier than
it may be. -/
structure Timed (s : Engine) : Prop where
  log : ∀ x ∈ s.claims, x.2 ≤ s.store.now
  rows : ∀ r ∈ s.store.steps, r.kind = .wait → s.WaitTimed r
  threads : ∀ i x, (s.threads i).park = some x → ∀ r ∈ s.store.steps, r.id = x.1 → s.DueBy r x.2

/-- How often a wait step was parked, from where it stands. -/
def WaitParked (s : Engine) (r : WorkflowStep) : Prop :=
  match r.status with
  | .pending => r.attempts = 0 ∧ s.parks r.id = 0
  | .running => (s.parks r.id : ℤ) + 1 = r.attempts
  | .waiting => r.attempts = 1 ∧ s.parks r.id = 1
  | .succeeded => s.parks r.id = 1
  | .failed | .cancelled => s.parks r.id ≤ 1

end Engine

section Waits

variable {config : RunnerConfig} {s t : Engine} {e : Event} {i : ℕ} {p : Thread} {r a : WorkflowStep} {x y : Instant}

/-! ### The clock -/

@[simp] theorem Queue.park_thread (queue : Queue) : queue.thread.park = none := by
  cases queue with
  | tick => rfl
  | touched es => cases es <;> rfl
  | drained es => cases es <;> rfl

@[simp] theorem Thread.park_reclaim (touched : List Uuid) (stale : List WorkflowStep) :
    (Thread.reclaim touched stale).park = none := by
  cases stale with
  | nil => exact Queue.park_thread (.touched touched)
  | cons step stale => rfl

@[simp] theorem AfterWrite.park_thread (after : AfterWrite) : after.thread.park = none := by
  cases after with
  | settle c => rfl
  | retried c => rfl
  | reclaim stale touched => exact Thread.park_reclaim touched stale

theorem after_mono {n : ℤ} (h : x ≤ y) :
    Time.after x (Time.seconds n) ≤ Time.after y (Time.seconds n) := by
  rw [Time.after_seconds, Time.after_seconds]
  linarith

theorem Took.claims (h : Took config s e t) :
    ∃ l, t.claims = s.claims ++ l ∧ ∀ x ∈ l, x.2 = s.store.now := by
  cases h with
  | @claim i locked r hidle hdue hshape =>
    refine ⟨[(r.id, s.store.now)], rfl, fun x hx => ?_⟩
    rw [List.mem_singleton.mp hx]
  | _ => exact ⟨[], (List.append_nil _).symm, fun _ hx => absurd hx List.not_mem_nil⟩

theorem Took.firstClaim (h : Took config s e t) {id : Uuid} {claimed : Instant}
    (hc : s.firstClaim id = some claimed) :
    t.firstClaim id = some claimed := by
  obtain ⟨l, hl, -⟩ := h.claims
  obtain ⟨x, hx, rfl⟩ := Option.map_eq_some_iff.mp hc
  rw [Engine.firstClaim, hl, List.find?_append, hx]
  rfl

theorem Engine.DueBy.later (h : s.DueBy a x) (ht : Took config s e t) (hr : a.Moved r)
    (hxy : x ≤ y) : t.DueBy r y := by
  obtain ⟨claimed, hclaimed, hdue⟩ := h
  refine ⟨claimed, hr.id ▸ ht.firstClaim hclaimed, fun n hn => le_trans (hdue n ?_) hxy⟩
  rw [← hr.params]
  exact hn

theorem Engine.WaitTimed.park (h : s.WaitTimed r) (hattempts : 1 ≤ r.attempts) {n : ℤ}
    (hn : waitSecondsFrom r.params = .ok n) :
    s.DueBy r (Time.after s.store.now (Time.seconds n)) := by
  obtain ⟨claimed, hclaimed, hpast⟩ := h.claimed hattempts
  refine ⟨claimed, hclaimed, fun n' hn' => ?_⟩
  obtain rfl : n = n' := Except.ok.inj (hn.symm.trans hn')
  exact after_mono hpast

/-- What becomes of a wait step keeps to the clock. -/
theorem Engine.Timed.row_step (h : s.Timed) (hs : s.Sane) (ht : Took config s e t)
    (ha : a ∈ s.store.steps)
    (hbecame : Became s t e a r) (hkind : a.kind = .wait) : t.WaitTimed r := by
  have hrow := h.rows a ha hkind
  have hmoved := hbecame.moved
  have hnow := ht.extends.now
  have hclaimed : 1 ≤ a.attempts → ∃ claimed, t.firstClaim r.id = some claimed ∧ claimed ≤ t.store.now := by
    intro hattempts
    obtain ⟨claimed, hc, hpast⟩ := hrow.claimed hattempts
    exact ⟨claimed, hmoved.id ▸ ht.firstClaim hc, le_trans hpast hnow⟩
  have hresumed : 2 ≤ a.attempts → t.DueBy r t.store.now :=
    fun hattempts => (hrow.resumed hattempts).later ht hmoved hnow
  cases hbecame with
  | same hlog =>
    refine ⟨hclaimed, hrow.pending, fun hw => (hrow.waiting hw).later ht hmoved (le_refl _), hresumed,
      fun hsucceeded => ?_⟩
    obtain ⟨finished, hf, hdue⟩ := hrow.succeeded hsucceeded
    exact ⟨finished, hf, hdue.later ht hmoved (le_refl _)⟩
  | claimed hevent hdue hshape hclaims hlog =>
    have hisDue := Store.isDue_iff.mp (Store.nextDue_eq_some hdue).2
    refine ⟨fun _ => ?_, fun h => (by cases h), fun h => (by cases h), fun hattempts => ?_, fun h => (by cases h)⟩
    · -- the claim itself is logged, unless an earlier one is
      cases hfirst : s.firstClaim a.id with
      | some claimed =>
        obtain ⟨z, hz, rfl⟩ := Option.map_eq_some_iff.mp hfirst
        exact ⟨z.2, ht.firstClaim hfirst, le_trans (h.log z (List.mem_of_find?_eq_some hz)) hnow⟩
      | none =>
        refine ⟨s.store.now, ?_, hnow⟩
        have hnone := Option.map_eq_none_iff.mp hfirst
        show t.firstClaim a.id = _
        rw [Engine.firstClaim, hclaims, List.find?_append, hnone]
        simp
    · rcases hisDue.2.1 with hpending | hwaiting
      · have hzero := hrow.pending hpending
        simp only [WorkflowStep.claimed] at hattempts
        omega
      · exact (hrow.waiting hwaiting).later ht hmoved (le_trans hisDue.2.2.1 hnow)
  | @reported i attempt w after hwriting hrunning hlog =>
    obtain ⟨hattempts, hfits⟩ := hs.fits hwriting ha rfl
    cases w with
    | complete output =>
      have hattempt : 1 < attempt := hfits hkind
      refine ⟨hclaimed, fun h => (by cases h), fun h => (by cases h), hresumed, fun _ => ⟨_, rfl, ?_⟩⟩
      exact (hrow.resumed (by omega)).later ht hmoved (le_refl _)
    | park availableAt =>
      refine ⟨hclaimed, fun h => (by cases h), fun _ => ?_, hresumed, fun h => (by cases h)⟩
      exact (h.threads i (a.id, availableAt) (by rw [hwriting]; rfl) a ha rfl).later ht hmoved (le_refl _)
    | retry message availableAt =>
      have htask : a.kind = .task := hfits.1
      exact absurd (htask.symm.trans hkind) (by decide)
    | fail message => exact ⟨hclaimed, fun h => (by cases h), fun h => (by cases h), hresumed, fun h => (by cases h)⟩
  | closed hclosing hid hopen hlog =>
    exact ⟨hclaimed, fun h => (by cases h), fun h => (by cases h), hresumed, fun h => (by cases h)⟩
  | resumed hwaiting hpast hlog =>
    refine ⟨hclaimed, fun h => (by cases h), fun h => (by cases h), hresumed, fun _ => ⟨_, rfl, ?_⟩⟩
    exact (hrow.waiting hwaiting).later ht hmoved hpast
  | cancelled hrunning hopen hlog =>
    exact ⟨hclaimed, fun h => (by cases h), fun h => (by cases h), hresumed, fun h => (by cases h)⟩

/-- A thread that goes on by itself decides a park that ends no earlier than it may. -/
theorem Moves.park (h : Moves config s i e p) (hs : s.Sane)
    (hwaits : ∀ r ∈ s.store.steps, r.kind = .wait → s.WaitTimed r)
    {z : Uuid × Instant} (hz : p.park = some z) (hr : r ∈ s.store.steps) (hid : r.id = z.1) :
    s.DueBy r z.2 := by
  have hi := hs.threads i
  cases h with
  | run hc =>
    rename_i c handled
    rw [hc] at hi
    obtain ⟨r', hr', hon⟩ := hi
    unfold advance at hz
    split at hz
    · rename_i hkind
      split_ifs at hz
      · cases hz
      · split at hz
        · cases hz
        · rename_i n hn
          cases hz
          obtain rfl := Table.eq_of_key hr hr' (hid.trans hon.id.symm)
          exact (hwaits r hr (hon.kind.trans hkind)).park (le_trans hon.first hon.attempts) (by rw [hon.params, hn])
    · split at hz
      · cases hz
      · split_ifs at hz <;> cases hz
  | reclaim hc =>
    rename_i step stale touched
    rw [hc] at hi
    obtain ⟨⟨hrunning, hfirst, r', hr', hmoved⟩, -⟩ := hi
    unfold reclaimWrite at hz
    split at hz
    · rename_i hkind
      split_ifs at hz
      · cases hz
      · split at hz
        · rename_i n hn
          cases hz
          obtain rfl := Table.eq_of_key hr hr' (hid.trans hmoved.id.symm)
          exact (hwaits r hr (hmoved.kind.trans hkind)).park (le_trans hfirst hmoved.attempts)
            (by rw [hmoved.params, hn])
        · cases hz
    · split_ifs at hz <;> cases hz
  | look hc =>
    unfold settleAfterStep at hz
    split at hz
    · cases hz
    · split_ifs at hz <;> cases hz
  | stale hc => rw [Thread.park_reclaim] at hz; cases hz
  | derive hc =>
    unfold Omnion.Workflows.derive at hz
    simp only at hz
    split_ifs at hz
    · rw [Queue.park_thread] at hz
      cases hz
    · cases hz
    · cases hz
  | explain hc => cases hz
  | ended hc hrunning => rw [Queue.park_thread] at hz; cases hz
  | drained hc => rw [Queue.park_thread] at hz; cases hz
  | crash => cases hz

theorem Thread.Known.park_mem {q : Thread} {z : Uuid × Instant} (h : q.Known s.store)
    (hz : q.park = some z) :
    ∃ r ∈ s.store.steps, r.id = z.1 := by
  cases q with
  | writing id attempt w after =>
    obtain ⟨⟨r, hr, hid, -⟩, -⟩ := h
    cases w with
    | park availableAt =>
      cases hz
      exact ⟨r, hr, hid⟩
    | _ => cases hz
  | _ => cases hz

theorem Took.dueBy (h : Took config s e t) {z : Uuid × Instant}
    (hz : ∀ r ∈ s.store.steps, r.id = z.1 → s.DueBy r z.2) (hmem : ∃ r ∈ s.store.steps, r.id = z.1)
    (hr : r ∈ t.store.steps) (hid : r.id = z.1) : t.DueBy r z.2 := by
  obtain ⟨a, ha, haid⟩ := hmem
  obtain ⟨b, hb, hbid, hmoved⟩ := h.extends.steps a ha
  obtain rfl := Table.eq_of_key hb hr (hbid.trans (haid.trans hid.symm))
  exact (hz a ha haid).later h hmoved (le_refl _)

/-- The threads keep to the clock. -/
theorem Engine.Timed.threads_step (h : s.Timed) (hs : s.Sane) (ht : Took config s e t) (j : ℕ)
    (z : Uuid × Instant) (hz : (t.threads j).park = some z) :
    ∀ r ∈ t.store.steps, r.id = z.1 → t.DueBy r z.2 := by
  have hothers : ∀ j z, (s.threads j).park = some z → ∀ r ∈ t.store.steps, r.id = z.1 → t.DueBy r z.2 :=
    fun j z hz r hr hid => ht.dueBy (h.threads j z hz) ((hs.threads j).park_mem hz) hr hid
  have hmove : ∀ {i : ℕ} {p : Thread}, (∀ z, p.park = some z → ∀ r ∈ t.store.steps, r.id = z.1 → t.DueBy r z.2) →
      ∀ j z, (Function.update s.threads i p j).park = some z → ∀ r ∈ t.store.steps, r.id = z.1 → t.DueBy r z.2 :=
    fun hp => (Function.forall_update_iff s.threads
      fun _ p => ∀ z, p.park = some z → ∀ r ∈ t.store.steps, r.id = z.1 → t.DueBy r z.2).mpr
      ⟨hp, fun j _ => hothers j⟩
  revert j z
  have hstep := ht
  cases ht with
  | stay => exact hothers
  | start hcreate => exact hothers
  | cancel hrunning => exact hothers
  | tick hnow => exact hothers
  | move hmoves =>
    refine hmove fun z hz r hr hid => hstep.dueBy (fun a ha haid => ?_) ((hmoves.known hs).park_mem hz) hr hid
    exact hmoves.park hs h.rows hz ha haid
  | claim hidle hdue hshape => exact hmove fun z hz => (by cases hz)
  | write hwriting => exact hmove fun z hz => (by rw [AfterWrite.park_thread] at hz; cases hz)
  | close hclosing => exact hmove fun z hz => (by cases hz)
  | sweep hidle => exact hmove fun z hz => (by cases hz)
  | settle hending hrunning => exact hmove fun z hz => (by rw [Queue.park_thread] at hz; cases hz)

/-- **Every step keeps to the clock.** -/
theorem Engine.Timed.step (h : s.Timed) (hs : s.Sane) (ht : Took config s e t) : t.Timed := by
  refine ⟨fun z hz => ?_, fun r hr hkind => ?_, fun j z hz => h.threads_step hs ht j z hz⟩
  · obtain ⟨l, hl, hnow⟩ := ht.claims
    rw [hl] at hz
    rcases List.mem_append.mp hz with hz | hz
    · exact le_trans (h.log z hz) ht.extends.now
    · rw [hnow z hz]
      exact ht.extends.now
  · rcases ht.rows hr with hinserted | ⟨a, ha, hbecame⟩
    · have hzero := hinserted.fresh.attempts
      have hpending := hinserted.fresh.status
      refine ⟨fun h => ?_, fun _ => hzero, fun h => ?_, fun h => ?_, fun h => ?_⟩
      · omega
      · rw [hpending] at h
        cases h
      · omega
      · rw [hpending] at h
        cases h
    · exact h.row_step hs ht ha hbecame (hbecame.moved.kind ▸ hkind)

theorem Engine.timed_empty (now : Instant) : (Engine.empty now).Timed :=
  ⟨fun _ hx => absurd hx List.not_mem_nil, fun _ hr => absurd hr List.not_mem_nil, fun _ _ hz => (by cases hz)⟩

/-- **Never early**: in every run, a wait that succeeded did so no earlier than its
first claim and its seconds. -/
theorem run_never_early {now : Instant} {ok : Engine → Event → Prop} {es : List Event}
    (h : Transition.Run (engineStep config) ok (.empty now) es s) (hr : r ∈ s.store.steps) (hkind : r.kind = .wait)
    (hsucceeded : r.status = .succeeded) :
    ∃ finished, r.finishedAt = some finished ∧ s.DueBy r finished := by
  have htimed : s.Timed :=
    h.invariant_of (Engine.timed_empty now) run_sane fun _ _ _ hs hx _ ht => hx.step hs (took ht)
  exact (htimed.rows r hr hkind).succeeded hsucceeded

/-- **The attempts**: in every run, whatever leases run out, no step is claimed more often than its policy allows, a
wait no more than twice, and a wait succeeds no earlier than its first claim and its seconds. -/
theorem run_attempts {now : Instant} {ok : Engine → Event → Prop} {es : List Event}
    (h : Transition.Run (engineStep config) ok (.empty now) es s) (hr : r ∈ s.store.steps) :
    0 ≤ r.attempts ∧ r.maxAttempts ≤ maxAttemptsCap ∧ (r.kind = .task → r.attempts ≤ r.maxAttempts) ∧
      (r.kind = .wait → r.attempts ≤ 2 ∧
        (r.status = .succeeded → ∃ finished, r.finishedAt = some finished ∧ s.DueBy r finished)) := by
  have hbounded := (run_sane h).rows r hr
  exact ⟨hbounded.nonneg, hbounded.maxAttempts.2, hbounded.task, fun hkind =>
    ⟨hbounded.wait hkind, run_never_early h hr hkind⟩⟩

/-! ### The parks -/

/-- **The invariant on parks**: what is logged is about steps there are, and a wait was
parked as often as its status says. -/
structure Engine.Parked (s : Engine) : Prop where
  log : ∀ x ∈ s.reports, ∃ r ∈ s.store.steps, r.id = x.id
  rows : ∀ r ∈ s.store.steps, r.kind = .wait → s.WaitParked r

theorem Engine.WaitParked.le_one (h : s.WaitParked r) (hr : r.Bounded) (hkind : r.kind = .wait) :
    s.parks r.id ≤ 1 := by
  have hwait := hr.wait hkind
  unfold Engine.WaitParked at h
  split at h <;> omega

theorem Engine.parks_of_reportsOn {id : Uuid} (hlog : t.reportsOn id = s.reportsOn id) :
    t.parks id = s.parks id := by
  rw [Engine.parks, hlog, Engine.parks]

theorem Engine.parks_of_report {id : Uuid} {report : Report}
    (hlog : t.reportsOn id = s.reportsOn id ++ [report]) :
    t.parks id = s.parks id + if report.write.isPark then 1 else 0 := by
  rw [Engine.parks, hlog, Engine.parks, List.filter_append, List.length_append]
  cases h : report.write.isPark <;> simp [h]

/-- What becomes of a wait step whose claims are reported in turn. -/
theorem Engine.Parked.row_step (h : s.Parked) (hs : s.Sane) (hl : s.Leased) (ha : a ∈ s.store.steps)
    (hbecame : Became s t e a r) (hkind : a.kind = .wait) : t.WaitParked r := by
  have hrow := h.rows a ha hkind
  have hbounded := hs.rows a ha
  have hone := hrow.le_one hbounded hkind
  have hwait := hbounded.wait hkind
  cases hbecame with
  | same hlog =>
    unfold Engine.WaitParked at *
    rwa [Engine.parks_of_reportsOn hlog]
  | claimed hevent hdue hshape hclaims hlog =>
    show (t.parks a.id : ℤ) + 1 = a.attempts + 1
    rw [Engine.parks_of_reportsOn hlog]
    unfold Engine.WaitParked at hrow
    rcases (Store.isDue_iff.mp (Store.nextDue_eq_some hdue).2).2.1 with hstatus | hstatus
    · rw [hstatus] at hrow
      omega
    · rw [hstatus] at hrow
      omega
  | @reported i attempt w after hwriting hrunning hlog =>
    obtain ⟨-, hfits⟩ := hs.fits hwriting ha rfl
    have hattempt := hl.attempt_eq hwriting ha rfl
    have hparks := Engine.parks_of_report hlog
    unfold Engine.WaitParked at hrow
    rw [hrunning] at hrow
    cases w with
    | complete output =>
      have hsecond : 1 < attempt := hfits hkind
      show t.parks a.id = 1
      simp only [StepWrite.isPark, Bool.false_eq_true, if_false] at hparks
      omega
    | park availableAt =>
      have hfirst : attempt ≤ 1 := hfits.2
      have hheld := hbounded.held hrunning
      show a.attempts = 1 ∧ t.parks a.id = 1
      simp only [StepWrite.isPark, if_true] at hparks
      omega
    | retry message availableAt =>
      have htask : a.kind = .task := hfits.1
      exact absurd (htask.symm.trans hkind) (by decide)
    | fail message =>
      show t.parks a.id ≤ 1
      simp only [StepWrite.isPark, Bool.false_eq_true, if_false] at hparks
      omega
  | closed hclosing hid hopen hlog =>
    show t.parks a.id ≤ 1
    rwa [Engine.parks_of_reportsOn hlog]
  | resumed hwaiting hpast hlog =>
    show t.parks a.id = 1
    rw [Engine.parks_of_reportsOn hlog]
    unfold Engine.WaitParked at hrow
    rw [hwaiting] at hrow
    exact hrow.2
  | cancelled hrunning hopen hlog =>
    show t.parks a.id ≤ 1
    rwa [Engine.parks_of_reportsOn hlog]

theorem Engine.Parked.log_step (h : s.Parked) (ht : Took config s e t) {report : Report}
    (hx : report ∈ t.reports) :
    ∃ r ∈ t.store.steps, r.id = report.id := by
  have hkeep : ∀ {id : Uuid}, (∃ r ∈ s.store.steps, r.id = id) → ∃ r ∈ t.store.steps, r.id = id := by
    rintro id ⟨r, hr, rfl⟩
    obtain ⟨r', hr', hid, -⟩ := ht.extends.steps r hr
    exact ⟨r', hr', hid⟩
  cases ht with
  | write hwriting =>
    rcases List.mem_append.mp hx with hx | hx
    · exact hkeep (h.log report hx)
    · obtain ⟨held, hheld, rfl⟩ := Option.map_eq_some_iff.mp (Option.mem_toList.mp hx)
      obtain ⟨r, hr, hid, -⟩ := Store.holder_eq_some.mp hheld
      exact hkeep ⟨r, hr, hid⟩
  | _ => exact hkeep (h.log report hx)

/-- **Every step keeps the count of parks**, when claims are reported in turn. -/
theorem Engine.Parked.step (h : s.Parked) (hs : s.Sane) (hl : s.Leased) (ht : Took config s e t) :
    t.Parked := by
  refine ⟨fun x hx => h.log_step ht hx, fun r hr hkind => ?_⟩
  rcases ht.rows hr with hinserted | ⟨a, ha, hbecame⟩
  · -- nothing was reported of a step that was not there
    have hnone : t.reportsOn r.id = [] := by
      apply List.filter_eq_nil_iff.mpr
      intro x hx hid
      obtain ⟨b, hb, hbid⟩ := h.log x (hinserted.reports ▸ hx)
      exact hinserted.newStep b hb (hbid.trans (of_decide_eq_true hid))
    unfold Engine.WaitParked
    rw [hinserted.fresh.status, Engine.parks, hnone]
    exact ⟨hinserted.fresh.attempts, rfl⟩
  · exact h.row_step hs hl ha hbecame (hbecame.moved.kind ▸ hkind)

theorem run_parked {now : Instant} {es : List Event}
    (h : Transition.Run (engineStep config) Engine.Alone (.empty now) es s) : s.Parked := by
  have hempty : (Engine.empty now).Parked :=
    ⟨fun _ hx => absurd hx List.not_mem_nil, fun _ hr => absurd hr List.not_mem_nil⟩
  refine h.invariant_of (J := fun s => s.Sane ∧ s.Leased) hempty (fun hrun => ⟨run_sane hrun, run_leased_inv hrun⟩) ?_
  intro x e y hx hparked _ ht
  exact hparked.step hx.1 hx.2 (took ht)

/-- **Waits**: over any interleaving of ticks and sweeps in which a step is claimed only
when no earlier claim on it is still to be reported on, a wait that succeeded did so no
earlier than its first claim and its seconds; one that is parked or succeeded was parked exactly
once, and no other more often. -/
theorem run_parks_once {now : Instant} {es : List Event}
    (h : Transition.Run (engineStep config) Engine.Alone (.empty now) es s) (hr : r ∈ s.store.steps)
    (hkind : r.kind = .wait) :
    (r.status = .succeeded → ∃ finished, r.finishedAt = some finished ∧ s.DueBy r finished) ∧
      ((r.status = .waiting ∨ r.status = .succeeded) → s.parks r.id = 1) ∧ s.parks r.id ≤ 1 := by
  have hparked := (run_parked h).rows r hr hkind
  refine ⟨fun hsucceeded => run_never_early h hr hkind hsucceeded, fun hstatus => ?_,
    hparked.le_one ((run_sane h).rows r hr) hkind⟩
  unfold Engine.WaitParked at hparked
  rcases hstatus with hwaiting | hsucceeded
  · rw [hwaiting] at hparked
    exact hparked.2
  · rwa [hsucceeded] at hparked

/-- A wait of one second. -/
def pause : StepDefinition := .wait "pause" 1

/-- Thread 0 claims the wait and its lease runs out; thread 1 parks it in its place;
thread 2 resumes it; and thread 0 parks it. -/
def lateParks : List Event :=
  [.start 1 [(11, pause)], .claim 0 [], .run 0 (.ok .null), .tick 301000000, .sweep 1 [], .next 1, .next 1, .next 1,
    .tick 302000000, .claim 2 [], .next 0]

/-- The wait is parked twice. -/
theorem parked_again :
    ¬ ∀ (config : RunnerConfig) (now : Instant) (es : List Event) (s : Engine),
      Transition.Run (engineStep config) Transition.Any (.empty now) es s → ∀ r ∈ s.store.steps, r.kind = .wait →
      (r.status = .succeeded → ∃ finished, r.finishedAt = some finished ∧ s.DueBy r finished) ∧
        ((r.status = .waiting ∨ r.status = .succeeded) → s.parks r.id = 1) ∧ s.parks r.id ≤ 1 := by
  intro h
  have hexec : (Transition.exec (engineStep {}) (.empty 0) lateParks).map
      (fun t => (t.store.steps.rows.map fun r => (r.id, r.kind), t.parks 11)) = some ([(11, .wait)], 2) := by decide
  obtain ⟨t, ht, hlogged⟩ := Transition.Run.of_exec_map hexec
  obtain ⟨hrows, hparks⟩ := Prod.mk.inj hlogged
  obtain ⟨r, hr, hrow⟩ := List.mem_map.mp (hrows ▸ List.mem_singleton_self _)
  obtain ⟨hid, hkind⟩ := Prod.mk.inj hrow
  have hone := (h {} 0 lateParks t ht r hr hkind).2.2
  rw [hid, hparks] at hone
  omega

/-- The wait is parked a second time, after two claims. -/
theorem run_attempts_late : ∃ s r, Transition.Run (engineStep {}) Transition.Any (.empty 0) lateParks s ∧
    r ∈ s.store.steps ∧ 0 ≤ r.attempts ∧ r.maxAttempts ≤ maxAttemptsCap ∧
      (r.kind = .task → r.attempts ≤ r.maxAttempts) ∧ (r.kind = .wait → r.attempts ≤ 2 ∧
        (r.status = .succeeded → ∃ finished, r.finishedAt = some finished ∧ s.DueBy r finished)) := by
  have hexec : (Transition.exec (engineStep {}) (.empty 0) lateParks).map
      (fun t => t.store.steps.rows.map (·.id)) = some [11] := by decide
  obtain ⟨s, hrun, hrows⟩ := Transition.Run.of_exec_map hexec
  obtain ⟨r, hr, -⟩ := List.mem_map.mp (hrows ▸ List.mem_singleton_self _)
  exact ⟨s, r, hrun, hr, run_attempts hrun hr⟩

/-- The wait is parked, and finished by a sweep. -/
theorem run_parks_once_swept :
    ∃ s r, Transition.Run (engineStep {}) Engine.Alone (.empty 0)
        [.start 1 [(11, pause)], .claim 0 [], .run 0 (.ok .null), .next 0, .tick 1000000, .sweep 1 []] s ∧
      r ∈ s.store.steps ∧ r.kind = .wait ∧ r.status = .succeeded ∧
      (r.status = .succeeded → ∃ finished, r.finishedAt = some finished ∧ s.DueBy r finished) ∧
        ((r.status = .waiting ∨ r.status = .succeeded) → s.parks r.id = 1) ∧ s.parks r.id ≤ 1 := by
  have hrun : ∃ s, Transition.Run (engineStep {}) Engine.Alone (.empty 0)
        [.start 1 [(11, pause)], .claim 0 [], .run 0 (.ok .null), .next 0, .tick 1000000, .sweep 1 []] s ∧
      (s.store.steps.rows.map fun r => (r.kind, r.status)) = [(.wait, .succeeded)] := by
    refine ⟨_, .cons trivial rfl (.cons (fun _ _ _ x hx => ?_) rfl (.cons trivial rfl (.cons trivial rfl
      (.cons trivial rfl (.cons trivial rfl .nil))))), rfl⟩
    exact absurd hx List.not_mem_nil
  obtain ⟨s, hrun, hrows⟩ := hrun
  obtain ⟨r, hr, hrow⟩ := List.mem_map.mp (hrows ▸ List.mem_singleton_self _)
  obtain ⟨hkind, hstatus⟩ := Prod.mk.inj hrow
  exact ⟨s, r, hrun, hr, hkind, hstatus, run_parks_once hrun hr hkind⟩

end Waits

end Omnion.Workflows
