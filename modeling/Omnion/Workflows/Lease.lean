import Omnion.Library.Fencing
import Omnion.Workflows.Engine

/-!
# Claims as leases

A claim on a step is a lease: its runner may stop, so a sweep gives the step back
when the claim is old. The claim is the step's attempt number, and reports are
guarded by the step's status only, not by the claim they report on. In the words of
`Omnion.Library.Fencing` the attempts of a step are its token, and a thread that has
still to report on a claim has a permit.

## What is proved

* `run_leased` — in the runs where a step is claimed only when every earlier claim on
  it is reported or given up, reports take effect for the claim that holds the step,
  and a queued task has attempts left.
* `late_report` — a runner that reports after its step was given back and claimed
  again puts the step in the queue without an attempt left.
-/

namespace Omnion.Workflows

/-! ### Permits -/

/-- The claim of a row. -/
def WorkflowStep.permit (r : WorkflowStep) : Uuid × ℤ := (r.id, r.attempts)

/-- The claims still to be reported on after a report. -/
def AfterWrite.permits : AfterWrite → List (Uuid × ℤ)
  | .settle _ | .retried _ => []
  | .reclaim stale _ => stale.map (·.permit)

/-- The claims a thread has still to report on. -/
def Thread.permits : Thread → List (Uuid × ℤ)
  | .claimed c => [(c.id, c.attempts)]
  | .writing id attempt _ after => (id, attempt) :: after.permits
  | .reclaiming step stale _ => step.permit :: stale.map (·.permit)
  | _ => []

/-- The attempts of a step. -/
def Store.token (s : Store) (id : Uuid) : Option ℤ := (s.steps.find? id).map (·.attempts)

namespace Engine

/-- The claims all threads have still to report on. -/
def permits (s : Engine) (i : ℕ) : List (Uuid × ℤ) := (s.threads i).permits

/-- **The steps allowed**: a step is claimed only when no thread, runner or sweep, has
still to report on an earlier claim of it. -/
def Alone (s : Engine) : Event → Prop
  | .claim _ locked => ∀ r, s.store.nextDue locked = some r → Fencing.Quiet s.permits r.id
  | _ => True

/-- A task in the queue has attempts left. -/
def Queued (s : Engine) : Prop :=
  ∀ r ∈ s.store.steps, r.kind = .task → (r.status = .pending ∨ r.status = .waiting) →
    r.attempts < attemptsAllowed r.maxAttempts

/-- Reports took effect for the claim that held the step. -/
def Fenced (s : Engine) : Prop := ∀ x ∈ s.reports, x.attempt = x.held

/-- **The invariant**: every claim still to be reported on is the step's last. -/
structure Leased (s : Engine) : Prop where
  current : Fencing.Current s.store.token s.permits
  queued : s.Queued
  fenced : s.Fenced

end Engine

section Lease

variable {config : RunnerConfig} {s t : Engine} {e : Event} {i : ℕ} {p : Thread}

theorem Store.token_eq_some {s : Store} {id : Uuid} {a : ℤ} :
    s.token id = some a ↔ ∃ r ∈ s.steps, r.id = id ∧ r.attempts = a := by
  simp only [token, Option.map_eq_some_iff, Table.find?_eq_some, and_assoc]

@[simp] theorem Queue.permits_thread (queue : Queue) : queue.thread.permits = [] := by
  cases queue with
  | tick => rfl
  | touched es => cases es <;> rfl
  | drained es => cases es <;> rfl

@[simp] theorem Thread.permits_reclaim (touched : List Uuid) (stale : List WorkflowStep) :
    (Thread.reclaim touched stale).permits = stale.map (·.permit) := by
  cases stale with
  | nil => exact Queue.permits_thread (.touched touched)
  | cons step stale => rfl

@[simp] theorem AfterWrite.permits_thread (after : AfterWrite) :
    after.thread.permits = after.permits := by
  cases after with
  | settle c => rfl
  | retried c => rfl
  | reclaim stale touched => exact Thread.permits_reclaim touched stale

theorem advance_permits {now : Instant} {c : ClaimedStep} {handled : Except String Json} {x : Uuid × ℤ}
    (hx : x ∈ (advance config now c handled).permits) : x = (c.id, c.attempts) := by
  unfold advance at hx
  split at hx
  · split_ifs at hx
    · exact List.mem_singleton.mp hx
    · split at hx
      · exact absurd hx List.not_mem_nil
      · exact List.mem_singleton.mp hx
  · split at hx
    · exact List.mem_singleton.mp hx
    · split_ifs at hx
      · exact List.mem_singleton.mp hx
      · exact List.mem_singleton.mp hx

/-- A thread that goes on by itself has permits it had, or on steps as they are. -/
theorem Moves.permits (h : Moves config s i e p) {x : Uuid × ℤ} (hx : x ∈ p.permits) :
    x ∈ s.permits i ∨ s.store.token x.1 = some x.2 := by
  unfold Engine.permits
  cases h with
  | run hc =>
    rw [hc, advance_permits hx]
    exact .inl (List.mem_singleton_self _)
  | look hc =>
    unfold settleAfterStep at hx
    split at hx
    · exact absurd hx List.not_mem_nil
    · split_ifs at hx <;> exact absurd hx List.not_mem_nil
  | stale hc =>
    rw [Thread.permits_reclaim] at hx
    obtain ⟨r, hr, rfl⟩ := List.mem_map.mp hx
    exact .inr (Store.token_eq_some.mpr ⟨r, (Store.mem_staleSteps hr).1, rfl, rfl⟩)
  | reclaim hc =>
    rw [hc]
    exact .inl hx
  | derive hc =>
    unfold Omnion.Workflows.derive at hx
    simp only at hx
    split_ifs at hx
    · rw [Queue.permits_thread] at hx
      exact absurd hx List.not_mem_nil
    · exact absurd hx List.not_mem_nil
    · exact absurd hx List.not_mem_nil
  | explain hc => exact absurd hx List.not_mem_nil
  | ended hc hrunning =>
    rw [Queue.permits_thread] at hx
    exact absurd hx List.not_mem_nil
  | drained hc =>
    rw [Queue.permits_thread] at hx
    exact absurd hx List.not_mem_nil
  | crash => exact absurd hx List.not_mem_nil

theorem Took.token (h : Took config s e t) {id : Uuid} {a : ℤ}
    (hother : ∀ i locked r, e = .claim i locked → s.store.nextDue locked = some r → id ≠ r.id)
    (ha : s.store.token id = some a) : t.store.token id = some a := by
  obtain ⟨r, hr, hid, rfl⟩ := Store.token_eq_some.mp ha
  obtain ⟨r', hr', hid', -⟩ := h.extends.steps r hr
  refine Store.token_eq_some.mpr ⟨r', hr', hid'.trans hid, ?_⟩
  rcases h.rows hr' with hinserted | ⟨b, hb, hbecame⟩
  · exact absurd hid'.symm (hinserted.newStep r hr)
  · obtain rfl := Table.eq_of_key hb hr (hbecame.moved.id.symm.trans hid')
    rcases hbecame.attempts with hsame | ⟨i, locked, rfl, hdue⟩
    · exact hsame
    · exact absurd hid.symm (hother i locked b rfl hdue)

theorem Engine.current_move {token : Uuid → Option ℤ} (h : Fencing.Current token s.permits)
    (hp : ∀ x ∈ p.permits, x ∈ s.permits i ∨ token x.1 = some x.2) :
    Fencing.Current token (s.move i p).permits :=
  Fencing.Current.update (f := Thread.permits) h hp

/-- The permits after a step of the engine are current. -/
theorem Engine.Leased.current_step (h : s.Leased) (hok : s.Alone e) (ht : Took config s e t) :
    Fencing.Current t.store.token t.permits := by
  have htoken : ∀ id a, (∀ i locked r, e = .claim i locked → s.store.nextDue locked = some r → id ≠ r.id) →
      s.store.token id = some a → t.store.token id = some a := fun id a => ht.token
  have hkeep : (∀ i locked, e ≠ .claim i locked) → Fencing.Current t.store.token s.permits := fun hne =>
    h.current.mono fun id a ha => htoken id a (fun i locked _ he => absurd he (hne i locked)) ha
  cases ht with
  | stay => exact h.current
  | move hmoves => exact Engine.current_move h.current fun x hx => hmoves.permits hx
  | start hcreate => exact hkeep fun i locked => (by simp)
  | cancel hrunning => exact hkeep fun i locked => (by simp)
  | tick hnow => exact hkeep fun i locked => (by simp)
  | @claim i locked r hidle hdue hshape =>
    refine Engine.current_move (h.current.claim (hok r hdue) fun id a hne ha => ?_) fun x hx => ?_
    · refine htoken id a (fun _ _ r' he hdue' => ?_) ha
      cases he
      rw [hdue] at hdue'
      cases hdue'
      exact hne
    · rw [List.mem_singleton.mp hx]
      exact .inr (Store.token_eq_some.mpr
        ⟨_, Store.mem_claim.mpr ⟨r, (Store.nextDue_eq_some hdue).1, if_pos rfl⟩, rfl, rfl⟩)
  | @write i id attempt w after hwriting =>
    refine Engine.current_move (hkeep fun i locked => (by simp)) fun x hx => .inl ?_
    rw [AfterWrite.permits_thread] at hx
    show x ∈ (s.threads i).permits
    rw [hwriting]
    exact List.mem_cons_of_mem _ hx
  | close hclosing =>
    exact Engine.current_move (hkeep fun i locked => (by simp)) fun x hx => absurd hx List.not_mem_nil
  | sweep hidle =>
    exact Engine.current_move (hkeep fun i locked => (by simp)) fun x hx => absurd hx List.not_mem_nil
  | settle hending hrunning =>
    apply Engine.current_move (hkeep fun i locked => (by simp))
    intro x hx
    rw [Queue.permits_thread] at hx
    exact absurd hx List.not_mem_nil

/-- A report on the claim that holds a step finds the step's attempts to be the claim. -/
theorem Engine.Leased.attempt_eq (h : s.Leased) {id : Uuid} {attempt : ℤ} {w : StepWrite}
    {after : AfterWrite} (hwriting : s.threads i = .writing id attempt w after) {r : WorkflowStep}
    (hr : r ∈ s.store.steps) (hid : r.id = id) :
    r.attempts = attempt := by
  have hmem : (id, attempt) ∈ s.permits i := by
    unfold Engine.permits
    rw [hwriting]
    exact List.mem_cons_self ..
  obtain ⟨r', hr', hid', hattempts⟩ := Store.token_eq_some.mp (h.current i _ hmem)
  obtain rfl := Table.eq_of_key hr hr' (hid.trans hid'.symm)
  exact hattempts

theorem Engine.Sane.fits (h : s.Sane) {id : Uuid} {attempt : ℤ} {w : StepWrite} {after : AfterWrite}
    (hwriting : s.threads i = .writing id attempt w after) {r : WorkflowStep}
    (hr : r ∈ s.store.steps) (hid : r.id = id) :
    attempt ≤ r.attempts ∧ w.Fits attempt r := by
  have hi := h.threads i
  rw [hwriting] at hi
  obtain ⟨⟨r', hr', hid', -, hattempt, hfits⟩, -⟩ := hi
  obtain rfl := Table.eq_of_key hr hr' (hid.trans hid'.symm)
  exact ⟨hattempt, hfits⟩

/-- A step of the engine queues a task only with attempts left. -/
theorem Engine.Leased.queued_step (h : s.Leased) (hs : s.Sane) (ht : Took config s e t) : t.Queued := by
  intro r hr hkind hstatus
  rcases ht.rows hr with hinserted | ⟨a, ha, hbecame⟩
  · have hmax := hinserted.fresh.maxAttempts
    have hattempts := hinserted.fresh.attempts
    unfold attemptsAllowed
    unfold maxAttemptsCap at *
    omega
  · cases hbecame with
    | same hlog => exact h.queued r ha hkind hstatus
    | claimed hevent hdue hshape hclaims hlog => rcases hstatus with h | h <;> cases h
    | @reported i attempt w after hwriting hrunning hlog =>
      obtain ⟨-, hfits⟩ := hs.fits hwriting ha rfl
      cases w with
      | complete output => rcases hstatus with h | h <;> cases h
      | fail message => rcases hstatus with h | h <;> cases h
      | park availableAt =>
        have hwait : a.kind = .wait := hfits.1
        exact absurd (hwait.symm.trans hkind) (by decide)
      | retry message availableAt =>
        have hattempt := h.attempt_eq hwriting ha rfl
        have hleft : attempt < attemptsAllowed a.maxAttempts := hfits.2
        exact hattempt ▸ hleft
    | closed hclosing hid hopen hlog => rcases hstatus with h | h <;> cases h
    | resumed hwaiting hpast hlog => rcases hstatus with h | h <;> cases h
    | cancelled hrunning hopen hlog => rcases hstatus with h | h <;> cases h

theorem Engine.Leased.fenced_step (h : s.Leased) (ht : Took config s e t) : t.Fenced := by
  cases ht with
  | @write i id attempt w after hwriting =>
    intro x hx
    rcases List.mem_append.mp hx with hx | hx
    · exact h.fenced x hx
    · obtain ⟨held, hheld, rfl⟩ := Option.map_eq_some_iff.mp (Option.mem_toList.mp hx)
      obtain ⟨r, hr, hid, -, hattempts⟩ := Store.holder_eq_some.mp hheld
      exact (h.attempt_eq hwriting hr hid).symm.trans hattempts
  | _ => exact h.fenced

/-- **One step keeps the invariant.** -/
theorem Engine.Leased.step (h : s.Leased) (hs : s.Sane) (hok : s.Alone e) (ht : Took config s e t) :
    t.Leased :=
  ⟨h.current_step hok ht, h.queued_step hs ht, h.fenced_step ht⟩

theorem Engine.leased_empty (now : Instant) : (Engine.empty now).Leased :=
  ⟨fun _ _ hx => absurd hx List.not_mem_nil, fun _ hr => absurd hr List.not_mem_nil,
    fun _ hx => absurd hx List.not_mem_nil⟩

theorem run_leased_inv {now : Instant} {es : List Event}
    (h : Transition.Run (engineStep config) Engine.Alone (.empty now) es s) : s.Leased :=
  h.invariant_of (Engine.leased_empty now) run_sane fun _ _ _ hs hx hok ht => hx.step hs hok (took ht)

theorem Engine.Sane.stays_within (h : s.Sane) {r : WorkflowStep} (hr : r ∈ s.store.steps)
    (hkind : r.kind = .task) :
    r.attempts ≤ attemptsAllowed r.maxAttempts := by
  have hbounded := h.rows r hr
  have hmax := hbounded.maxAttempts
  have htask := hbounded.task hkind
  unfold attemptsAllowed
  omega

/-- **Leases hold**: over any interleaving of runners, sweeps, crashes and lease
expiries in which a step is claimed only when no earlier claim on it is still to be
reported on, a queued task has attempts left, attempts stay within the maximum, and
reports take effect only for the claim that holds the step. -/
theorem run_leased {now : Instant} {es : List Event}
    (h : Transition.Run (engineStep config) Engine.Alone (.empty now) es s) :
    (∀ r ∈ s.store.steps, r.kind = .task →
      ((r.status = .pending ∨ r.status = .waiting) → r.attempts < attemptsAllowed r.maxAttempts) ∧
        r.attempts ≤ attemptsAllowed r.maxAttempts) ∧
      ∀ x ∈ s.reports, x.attempt = x.held := by
  have hleased := run_leased_inv h
  have hsane := run_sane h
  exact ⟨fun r hr hkind => ⟨hleased.queued r hr hkind, hsane.stays_within hr hkind⟩, hleased.fenced⟩

/-- A task that is given two attempts. -/
def send : StepDefinition :=
  .retrying (.task "send" "send_email" (.object [("to", .string "ada@example.com"), ("subject", .string "Hi"),
    ("body", .string "Hello")])) 2

/-- Thread 0 claims the task and its lease runs out; thread 1 gives the task back;
thread 2 claims it; and thread 0 reports that its attempt failed. -/
def lateReport : List Event :=
  [.start 1 [(11, send)], .claim 0 [], .tick 301000000, .sweep 1 [], .next 1, .next 1, .next 1, .claim 2 [],
    .run 0 (.error "the email could not be sent"), .next 0]

/-- The task is in the queue, and both attempts are used up. -/
theorem late_report :
    ¬ ∀ (config : RunnerConfig) (now : Instant) (es : List Event) (s : Engine),
      Transition.Run (engineStep config) Transition.Any (.empty now) es s →
      (∀ r ∈ s.store.steps, r.kind = .task →
        ((r.status = .pending ∨ r.status = .waiting) → r.attempts < attemptsAllowed r.maxAttempts) ∧
          r.attempts ≤ attemptsAllowed r.maxAttempts) ∧
        ∀ x ∈ s.reports, x.attempt = x.held := by
  intro h
  have hexec : (Transition.exec (engineStep {}) (.empty 0) lateReport).map
      (fun t => t.store.steps.rows.map fun r => (r.kind, r.status, r.attempts, r.maxAttempts)) =
      some [(.task, .pending, 2, 2)] := by decide
  obtain ⟨t, ht, hrows⟩ := Transition.Run.of_exec_map hexec
  obtain ⟨hqueued, -⟩ := h {} 0 lateReport t ht
  obtain ⟨r, hr, hrow⟩ := List.mem_map.mp (hrows ▸ List.mem_singleton_self _)
  obtain ⟨hkind, hstatus, hattempts, hmax⟩ :
      r.kind = .task ∧ r.status = .pending ∧ r.attempts = 2 ∧ r.maxAttempts = 2 := by
    simpa only [Prod.mk.injEq] using hrow
  have hleft := (hqueued r hr hkind).1 (.inl hstatus)
  rw [hattempts, hmax] at hleft
  exact absurd hleft (by decide)

/-- A runner alone claims the task twice. -/
theorem run_leased_twice :
    ∃ s, Transition.Run (engineStep {}) Engine.Alone (.empty 0)
        [.start 1 [(11, send)], .claim 0 [], .run 0 (.error "the email could not be sent"), .next 0, .tick 5000000,
          .claim 0 []] s ∧
      (∀ r ∈ s.store.steps, r.kind = .task →
        ((r.status = .pending ∨ r.status = .waiting) → r.attempts < attemptsAllowed r.maxAttempts) ∧
          r.attempts ≤ attemptsAllowed r.maxAttempts) ∧
        ∀ x ∈ s.reports, x.attempt = x.held := by
  have hquiet : ∀ {s : Engine} {locked : List Uuid}, (∀ j, s.threads j = .idle) → s.Alone (.claim 0 locked) := by
    intro s locked hidle r _ j x hx
    rw [Engine.permits, hidle j] at hx
    exact absurd hx List.not_mem_nil
  have hidle : ∀ {f : ℕ → Thread}, (∀ j, j ≠ 0 → f j = .idle) → f 0 = .idle → ∀ j, f j = .idle := by
    intro f hothers hzero j
    by_cases hj : j = 0
    · rw [hj, hzero]
    · exact hothers j hj
  have hrun : ∃ s, Transition.Run (engineStep {}) Engine.Alone (.empty 0)
      [.start 1 [(11, send)], .claim 0 [], .run 0 (.error "the email could not be sent"), .next 0, .tick 5000000,
        .claim 0 []] s := by
    refine ⟨_, .cons trivial rfl (.cons (hquiet fun _ => rfl) rfl (.cons trivial rfl (.cons trivial rfl
      (.cons trivial rfl (.cons (hquiet (hidle (fun j hj => ?_) rfl)) rfl .nil)))))⟩
    simp [Engine.empty, Engine.report, Function.update_of_ne hj]
  obtain ⟨s, hrun⟩ := hrun
  exact ⟨s, hrun, run_leased hrun⟩

end Lease

end Omnion.Workflows
