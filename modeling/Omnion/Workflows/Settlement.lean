import Omnion.Workflows.Engine

/-!
# Settlement

A run is settled from counts of its steps, by any number of threads at once; the
write that ends it is guarded by its status. `Derives` says which terminal state the
steps of a run without open steps give it.

## What is proved

* `run_settlement` — settlement is sound in every run, whatever is restricted.
-/

namespace Omnion.Workflows

namespace Store

/-- The terminal state the steps of a run give it: none of them is open, and the state
is theirs. -/
def Derives (s : Store) (e : Uuid) : ExecutionStatus → Prop
  | .running => False
  | .completed => ∀ r ∈ s.steps, r.executionId = e → r.status = .succeeded
  | .failed => s.Closed e ∧ ∃ r ∈ s.steps, r.executionId = e ∧ r.status = .failed
  | .cancelled =>
    s.Closed e ∧ (∀ r ∈ s.steps, r.executionId = e → r.status ≠ .failed) ∧
      ∃ r ∈ s.steps, r.executionId = e ∧ r.status = .cancelled

/-- The earlier steps of a run are terminal. -/
def ClosedBefore (s : Store) (e : Uuid) (n : ℤ) : Prop :=
  ∀ a ∈ s.steps, a.executionId = e → a.stepNo < n → a.status.isOpen = false

end Store

/-- What a thread has derived of a run still holds. -/
def Thread.Derived (s : Store) : Thread → Prop
  | .explaining e _ => s.Derives e .failed
  | .ending e status _ _ => s.Derives e status
  | _ => True

namespace Engine

/-- How often a run was reported to end. -/
def ends (s : Engine) (e : Uuid) : ℕ := (s.answers.filter (·.1 = e)).length + s.cancels.count e

/-- **The invariant of settlement.** -/
structure Settled (s : Engine) : Prop where
  /-- A run that is over has the state its steps give it, or was cancelled. -/
  executions : ∀ x ∈ s.store.executions,
    x.status = .running ∨ s.store.Derives x.id x.status ∨ (x.status = .cancelled ∧ x.id ∈ s.cancels)
  ordered : ∀ r ∈ s.store.steps, 1 ≤ r.attempts → s.store.ClosedBefore r.executionId r.stepNo
  ends : ∀ x ∈ s.store.executions, s.ends x.id = if x.status.isTerminal then 1 else 0
  /-- What was reported is about runs there are. -/
  known : ∀ e, 0 < s.ends e → s.store.Known e
  /-- What the threads have derived holds. -/
  threads : ∀ i, (s.threads i).Derived s.store

end Engine

section Settlement

variable {config : RunnerConfig} {s t : Engine} {ev : Event} {i : ℕ} {p : Thread} {e : Uuid} {status : ExecutionStatus}

/-! ### Derived states -/

theorem Store.Derives.closed {s : Store} (h : s.Derives e status) : s.Closed e := by
  cases status with
  | running => exact h.elim
  | completed =>
    intro r hr he
    rw [h r hr he]
    rfl
  | failed => exact h.1
  | cancelled => exact h.1

theorem Store.Derives.terminal {s : Store} (h : s.Derives e status) : status.isTerminal = true := by
  cases status with
  | running => exact h.elim
  | _ => rfl

theorem Store.Derives.congr {s t : Store} (h : s.Derives e status)
    (hrows : ∀ r : WorkflowStep, r.executionId = e → (r ∈ t.steps ↔ r ∈ s.steps)) :
    t.Derives e status := by
  have hall : ∀ {P : WorkflowStep → Prop}, (∀ r ∈ s.steps, r.executionId = e → P r) →
      ∀ r ∈ t.steps, r.executionId = e → P r :=
    fun hP r hr he => hP r ((hrows r he).mp hr) he
  have hex : ∀ {P : WorkflowStep → Prop}, (∃ r ∈ s.steps, r.executionId = e ∧ P r) →
      ∃ r ∈ t.steps, r.executionId = e ∧ P r :=
    fun ⟨r, hr, he, hP⟩ => ⟨r, (hrows r he).mpr hr, he, hP⟩
  cases status with
  | running => exact h.elim
  | completed => exact hall h
  | failed => exact ⟨hall h.1, hex h.2⟩
  | cancelled => exact ⟨hall h.1, hall h.2.1, hex h.2.2⟩

theorem Store.derives_counts {s : Store} (h : s.Closed e) : s.Derives e (s.counts e).status := by
  unfold Store.Counts.status
  split_ifs with hfailed hcancelled
  · exact ⟨h, Store.counts_failed.mp hfailed⟩
  · refine ⟨h, fun r hr he hstatus => hfailed (Store.counts_failed.mpr ⟨r, hr, he, hstatus⟩), ?_⟩
    exact Store.counts_cancelled.mp hcancelled
  · intro r hr he
    have hopen := h r hr he
    cases hstatus : r.status with
    | succeeded => rfl
    | failed => exact absurd (Store.counts_failed.mpr ⟨r, hr, he, hstatus⟩) hfailed
    | cancelled => exact absurd (Store.counts_cancelled.mpr ⟨r, hr, he, hstatus⟩) hcancelled
    | pending => rw [hstatus] at hopen; cases hopen
    | running => rw [hstatus] at hopen; cases hopen
    | waiting => rw [hstatus] at hopen; cases hopen

/-! ### Steps that are closed -/

theorem Took.closedBefore (h : Took config s ev t) {n : ℤ} (hclosed : s.store.ClosedBefore e n)
    (hknown : s.store.Known e) :
    t.store.ClosedBefore e n := by
  intro r hr he hn
  rcases h.rows hr with hinserted | ⟨a, ha, hbecame⟩
  · exact absurd (he ▸ hknown) hinserted.newRun
  · have hmoved := hbecame.moved
    have hopen := hclosed a ha (hmoved.executionId.symm.trans he) (hmoved.stepNo ▸ hn)
    rwa [hmoved.closed hopen]

theorem Took.closed_rows (h : Took config s ev t) (hclosed : s.store.Closed e)
    (hknown : s.store.Known e)
    (r : WorkflowStep) (he : r.executionId = e) : r ∈ t.store.steps ↔ r ∈ s.store.steps := by
  constructor
  · intro hr
    rcases h.rows hr with hinserted | ⟨a, ha, hbecame⟩
    · exact absurd (he ▸ hknown) hinserted.newRun
    · rw [hbecame.moved.closed (hclosed a ha (hbecame.moved.executionId.symm.trans he))]
      exact ha
  · intro hr
    obtain ⟨r', hr', -, hmoved⟩ := h.extends.steps r hr
    rwa [hmoved.closed (hclosed r hr he)] at hr'

theorem Took.derives (h : Took config s ev t) (status : ExecutionStatus) (hknown : s.store.Known e)
    (hd : s.store.Derives e status) :
    t.store.Derives e status :=
  hd.congr fun r he => h.closed_rows hd.closed hknown r he

/-! ### The threads -/

@[simp] theorem Queue.derived_thread (queue : Queue) (s : Store) : queue.thread.Derived s := by
  cases queue with
  | tick => trivial
  | touched es => cases es <;> trivial
  | drained es => cases es <;> trivial

@[simp] theorem Thread.derived_reclaim (touched : List Uuid) (stale : List WorkflowStep) (s : Store) :
    (Thread.reclaim touched stale).Derived s := by
  cases stale with
  | nil => exact Queue.derived_thread (.touched touched) s
  | cons step stale => trivial

@[simp] theorem AfterWrite.derived_thread (after : AfterWrite) (s : Store) :
    after.thread.Derived s := by
  cases after with
  | settle c => trivial
  | retried c => trivial
  | reclaim stale touched => exact Thread.derived_reclaim touched stale s

/-- What a thread derives holds. -/
theorem Moves.derived (h : Moves config s i ev p) (hs : s.Settled) : p.Derived s.store := by
  have hi := hs.threads i
  cases h with
  | run hc =>
    unfold advance
    split
    · split_ifs
      · trivial
      · split <;> trivial
    · split
      · trivial
      · split_ifs <;> trivial
  | look hc =>
    unfold settleAfterStep
    split
    · trivial
    · split_ifs <;> trivial
  | stale hc => exact Thread.derived_reclaim ..
  | reclaim hc => trivial
  | derive hc =>
    unfold Omnion.Workflows.derive
    simp only
    split_ifs with hopen hfailed
    · exact Queue.derived_thread ..
    · have hclosed := Store.counts_opened.mp (Nat.eq_zero_of_not_pos hopen)
      have hderives := Store.derives_counts hclosed
      rw [hfailed] at hderives
      exact hderives
    · exact Store.derives_counts (Store.counts_opened.mp (Nat.eq_zero_of_not_pos hopen))
  | explain hc =>
    rw [hc] at hi
    exact hi
  | ended hc hrunning => exact Queue.derived_thread ..
  | drained hc => exact Queue.derived_thread ..
  | crash => trivial

theorem Took.derived (h : Took config s ev t) (hknown : p.Known s.store) (hp : p.Derived s.store) :
    p.Derived t.store := by
  cases p with
  | explaining e queue => exact h.derives .failed hknown.1 hp
  | ending e status error queue => exact h.derives status hknown.1 hp
  | _ => trivial

theorem Engine.Settled.threads_step (h : s.Settled) (hs : s.Sane) (ht : Took config s ev t) :
    ∀ i, (t.threads i).Derived t.store := by
  have hothers : ∀ i, (s.threads i).Derived t.store := fun i => ht.derived (hs.threads i) (h.threads i)
  have hmove : ∀ {i : ℕ} {p : Thread}, p.Derived t.store → ∀ j, (Function.update s.threads i p j).Derived t.store :=
    fun hp => (Function.forall_update_iff s.threads fun _ p => p.Derived t.store).mpr ⟨hp, fun j _ => hothers j⟩
  cases ht with
  | stay => exact hothers
  | start hcreate => exact hothers
  | cancel hrunning => exact hothers
  | tick hnow => exact hothers
  | move hmoves => exact hmove (hmoves.derived h)
  | claim hidle hdue hshape => exact hmove trivial
  | write hwriting => exact hmove (AfterWrite.derived_thread ..)
  | close hclosing => exact hmove trivial
  | sweep hidle => exact hmove trivial
  | settle hending hrunning => exact hmove (Queue.derived_thread ..)

/-! ### The order of claims -/

theorem Engine.Settled.ordered_step (h : s.Settled) (hs : s.Sane) (ht : Took config s ev t) :
    ∀ r ∈ t.store.steps, 1 ≤ r.attempts → t.store.ClosedBefore r.executionId r.stepNo := by
  intro r hr hattempts
  rcases ht.rows hr with hinserted | ⟨a, ha, hbecame⟩
  · have hzero := hinserted.fresh.attempts
    omega
  · have hmoved := hbecame.moved
    rw [hmoved.executionId, hmoved.stepNo]
    refine ht.closedBefore ?_ (hs.runs a ha)
    rcases hbecame.attempts with hsame | ⟨i, locked, -, hdue⟩
    · exact h.ordered a ha (hsame ▸ hattempts)
    · exact (Store.isDue_iff.mp (Store.nextDue_eq_some hdue).2).2.2.2

/-! ### The ends of runs -/

/-- What event `e` makes of a run, and what the logs say of it. -/
inductive RunBecame (s t : Engine) (e : Event) (x : WorkflowExecution) : WorkflowExecution → Prop where
  | same : t.ends x.id = s.ends x.id → (x.id ∈ s.cancels → x.id ∈ t.cancels) → RunBecame s t e x x
  | settled {status : ExecutionStatus} {error : Option String} : x.status = .running → s.store.Derives x.id status →
      t.ends x.id = s.ends x.id + 1 → RunBecame s t e x (x.settled s.store.now status error)
  | cancelled : e = .cancel x.id → t.threads = s.threads →
      (∀ r ∈ t.store.steps, r.executionId = x.id → r.status ≠ .pending ∧ r.status ≠ .waiting) →
      x.status = .running → x.id ∈ t.cancels → t.ends x.id = s.ends x.id + 1 →
      RunBecame s t e x (x.cancelled s.store.now)

theorem Engine.ends_answered (s : Engine) (z : Uuid × ExecutionStatus) (e : Uuid) :
    ((s.answers ++ [z]).filter (·.1 = e)).length + s.cancels.count e = s.ends e + if z.1 = e then 1 else 0 := by
  rw [List.filter_append, List.length_append, Engine.ends]
  by_cases h : z.1 = e
  · simp [h]
    omega
  · simp [h]

theorem Engine.ends_cancelled (s : Engine) (c e : Uuid) :
    (s.answers.filter (·.1 = e)).length + (s.cancels ++ [c]).count e = s.ends e + if c = e then 1 else 0 := by
  rw [List.count_append, List.count_singleton, Engine.ends]
  by_cases h : c = e
  · simp [h]
    omega
  · simp [h]

/-- **Every run** is one that starts, or a run there was, and what became of it. -/
theorem Took.runs (h : Took config s ev t) (hsettled : s.Settled) {x : WorkflowExecution}
    (hx : x ∈ t.store.executions) :
    (x.status = .running ∧ ¬ s.store.Known x.id ∧ t.ends x.id = s.ends x.id) ∨
      ∃ a ∈ s.store.executions, RunBecame s t ev a x := by
  cases h with
  | start hcreate =>
    obtain ⟨hnone, -, hexecutions, -, -⟩ := Store.createExecution_ok hcreate
    rcases (hexecutions x).mp hx with hx | rfl
    · exact .inr ⟨x, hx, .same rfl id⟩
    · refine .inl ⟨rfl, ?_, rfl⟩
      rintro ⟨y, hy, hid⟩
      exact Table.find?_eq_none.mp hnone y hy hid
  | @settle i e status error queue hending hrunning =>
    have hderived := hsettled.threads i
    rw [hending] at hderived
    obtain ⟨a, ha, rfl⟩ := Store.mem_settle.mp hx
    have hends := s.ends_answered (e, status) a.id
    split_ifs with hid
    · obtain ⟨rfl, hstatus⟩ := hid
      rw [if_pos rfl] at hends
      exact .inr ⟨a, ha, .settled hstatus hderived hends⟩
    · have hne : ¬ e = a.id := by
        rintro rfl
        obtain ⟨y, hy, hyid, hystatus⟩ := Store.isRunning_iff.mp hrunning
        obtain rfl := Table.eq_of_key hy ha hyid
        exact hid ⟨rfl, hystatus⟩
      rw [if_neg hne] at hends
      exact .inr ⟨a, ha, .same hends id⟩
  | @cancel e hrunning =>
    obtain ⟨a, ha, rfl⟩ := Store.mem_close_executions.mp hx
    have hends := s.ends_cancelled e a.id
    split_ifs with hid
    · obtain ⟨rfl, hstatus⟩ := hid
      rw [if_pos rfl] at hends
      refine .inr ⟨a, ha, .cancelled rfl rfl (fun r hr hrun => ?_) hstatus
        (List.mem_append_right _ (List.mem_singleton_self _)) hends⟩
      obtain ⟨b, hb, rfl⟩ := Store.mem_close_steps.mp hr
      split_ifs at hrun with hqueued
      · simp [hqueued, WorkflowStep.cancelled]
      · rw [if_neg hqueued]
        exact ⟨fun h => hqueued ⟨hrun, .inl h⟩, fun h => hqueued ⟨hrun, .inr h⟩⟩
    · have hne : ¬ e = a.id := by
        rintro rfl
        obtain ⟨y, hy, hyid, hystatus⟩ := Store.isRunning_iff.mp hrunning
        obtain rfl := Table.eq_of_key hy ha hyid
        exact hid ⟨rfl, hystatus⟩
      rw [if_neg hne] at hends
      exact .inr ⟨a, ha, .same hends fun hc => List.mem_append_left _ hc⟩
  | stay => exact .inr ⟨x, hx, .same rfl id⟩
  | move hmoves => exact .inr ⟨x, hx, .same rfl id⟩
  | claim hidle hdue hshape => exact .inr ⟨x, hx, .same rfl id⟩
  | @write i id attempt w after hwriting =>
    refine .inr ⟨x, ?_, .same rfl fun hc => hc⟩
    rwa [← s.store.write_executions id w]
  | close hclosing => exact .inr ⟨x, hx, .same rfl id⟩
  | sweep hidle => exact .inr ⟨x, hx, .same rfl id⟩
  | tick hnow => exact .inr ⟨x, hx, .same rfl id⟩

theorem Took.ends_eq (h : Took config s ev t) (e : Uuid) : t.ends e = s.ends e ∨ s.store.Known e := by
  have hknown : ∀ {c : Uuid}, s.store.isRunning c = true → s.store.Known c := by
    intro c hrunning
    obtain ⟨x, hx, hid, -⟩ := Store.isRunning_iff.mp hrunning
    exact ⟨x, hx, hid⟩
  cases h with
  | @settle i c status error queue hending hrunning =>
    by_cases hc : c = e
    · exact .inr (hc ▸ hknown hrunning)
    · exact .inl ((s.ends_answered (c, status) e).trans (by simp [hc]))
  | @cancel c hrunning =>
    by_cases hc : c = e
    · exact .inr (hc ▸ hknown hrunning)
    · exact .inl ((s.ends_cancelled c e).trans (by simp [hc]))
  | _ => exact .inl rfl

/-- **Every step keeps settlement sound.** -/
theorem Engine.Settled.step (h : s.Settled) (hs : s.Sane) (ht : Took config s ev t) : t.Settled := by
  refine ⟨fun x hx => ?_, h.ordered_step hs ht, fun x hx => ?_, fun e he => ?_, h.threads_step hs ht⟩
  · rcases ht.runs h hx with ⟨hrunning, -, -⟩ | ⟨a, ha, hbecame⟩
    · exact .inl hrunning
    · cases hbecame with
      | same hends hcancels =>
        rcases h.executions x ha with hrunning | hderives | ⟨hstatus, hcancelled⟩
        · exact .inl hrunning
        · exact .inr (.inl (ht.derives x.status ⟨x, ha, rfl⟩ hderives))
        · exact .inr (.inr ⟨hstatus, hcancels hcancelled⟩)
      | settled hrunning hderives hends => exact .inr (.inl (ht.derives _ ⟨a, ha, rfl⟩ hderives))
      | cancelled hevent hthreads hrows hrunning hcancelled hends => exact .inr (.inr ⟨rfl, hcancelled⟩)
  · rcases ht.runs h hx with ⟨hrunning, hnew, hends⟩ | ⟨a, ha, hbecame⟩
    · have hzero : s.ends x.id = 0 := Nat.eq_zero_of_not_pos fun hpos => hnew (h.known x.id hpos)
      rw [hends, hzero, hrunning]
      rfl
    · have hold := h.ends a ha
      cases hbecame with
      | same hends hcancels => rwa [hends]
      | @settled status error hrunning hderives hends =>
        rw [hrunning] at hold
        show t.ends a.id = if status.isTerminal then 1 else 0
        rw [hends, hold, hderives.terminal]
        rfl
      | cancelled hevent hthreads hrows hrunning hcancelled hends =>
        rw [hrunning] at hold
        show t.ends a.id = 1
        rw [hends, hold]
        rfl
  · rcases ht.ends_eq e with hends | hknown
    · exact (h.known e (hends ▸ he)).mono ht.extends
    · exact hknown.mono ht.extends

theorem Engine.settled_empty (now : Instant) : (Engine.empty now).Settled :=
  ⟨fun _ hx => absurd hx List.not_mem_nil, fun _ hr => absurd hr List.not_mem_nil,
    fun _ hx => absurd hx List.not_mem_nil, fun _ he => absurd he (lt_irrefl 0), fun _ => trivial⟩

theorem run_settled {now : Instant} {ok : Engine → Event → Prop} {es : List Event}
    (h : Transition.Run (engineStep config) ok (.empty now) es s) : s.Settled :=
  h.invariant_of (Engine.settled_empty now) run_sane fun _ _ _ hs hx _ ht => hx.step hs (took ht)

theorem run_extends {ok : Engine → Event → Prop} {es : List Event}
    (h : Transition.Run (engineStep config) ok s es t) : s.store.Extends t.store :=
  h.invariant (I := fun x => s.store.Extends x.store) (.refl _) fun _ _ _ hx _ ht => hx.trans (took ht).extends

/-- Settlement is sound in `t`, and what was terminal in the earlier state `s` still
is. -/
structure Engine.SettlementSound (s t : Engine) : Prop where
  /-- A run is completed when every step succeeded, failed when no step is open and one
  failed, and cancelled otherwise, or by a caller. -/
  derived : ∀ x ∈ t.store.executions,
    x.status = .running ∨ t.store.Derives x.id x.status ∨ (x.status = .cancelled ∧ x.id ∈ t.cancels)
  /-- Terminal runs never change. -/
  runs : ∀ x ∈ s.store.executions, x.status.isTerminal → x ∈ t.store.executions
  /-- Terminal steps never change. -/
  steps : ∀ r ∈ s.store.steps, r.status.isOpen = false → r ∈ t.store.steps
  /-- A step is claimed only while those before it are terminal, -/
  claims : ∀ locked c store, t.store.claimDueStep locked = .ok (some c, store) →
    t.store.ClosedBefore c.executionId c.stepNo
  /-- and they stay so. -/
  ordered : ∀ r ∈ t.store.steps, 1 ≤ r.attempts → t.store.ClosedBefore r.executionId r.stepNo
  /-- The end of a run is reported once: by a settle or a cancellation. -/
  once : ∀ x ∈ t.store.executions, t.ends x.id = if x.status.isTerminal then 1 else 0

/-- **Settlement is sound** in every run of the engine. -/
theorem run_settlement {now : Instant} {es es' : List Event}
    (h : Transition.Run (engineStep config) Transition.Any (.empty now) es s)
    (h' : Transition.Run (engineStep config) Transition.Any s es' t) : s.SettlementSound t := by
  have hsettled : t.Settled := by
    have hboth : t.Sane ∧ t.Settled :=
      h'.invariant (I := fun x => x.Sane ∧ x.Settled) ⟨run_sane h, run_settled h⟩
      fun _ _ _ hx _ ht => ⟨hx.1.step (took ht), hx.2.step hx.1 (took ht)⟩
    exact hboth.2
  have hext := run_extends h'
  refine ⟨hsettled.executions, fun x hx hterminal => ?_, fun r hr hclosed => ?_, fun locked c store hclaim => ?_,
    hsettled.ordered, hsettled.ends⟩
  · obtain ⟨y, hy, -, hmoved⟩ := hext.executions x hx
    rwa [hmoved.terminal hterminal] at hy
  · obtain ⟨r', hr', -, hmoved⟩ := hext.steps r hr
    rwa [hmoved.closed hclosed] at hr'
  · obtain ⟨r, hdue, -, rfl, -⟩ := Store.claimDueStep_ok hclaim
    exact (Store.isDue_iff.mp (Store.nextDue_eq_some hdue).2).2.2.2

/-- A run of one step: claimed and running, and then done and settled. -/
theorem run_settlement_one :
    ∃ s t : Engine, s.store.executions.rows.map (·.status) = [.running] ∧
      t.store.executions.rows.map (·.status) = [.completed] ∧ s.SettlementSound t := by
  have hexec : ((Transition.exec (engineStep {}) (.empty 0)
      [.start 1 [(11, .task "note" "noop" (.object []))], .claim 0 []]).bind fun s =>
        (Transition.exec (engineStep {}) s [.run 0 (.ok .null), .next 0, .next 0, .next 0, .next 0]).map fun t =>
          (s.store.executions.rows.map (·.status), t.store.executions.rows.map (·.status))) =
      some ([.running], [.completed]) := by
    decide
  obtain ⟨s, hs, hrest⟩ := Option.bind_eq_some_iff.mp hexec
  obtain ⟨t, ht, hstatus⟩ := Option.map_eq_some_iff.mp hrest
  obtain ⟨hrunning, hcompleted⟩ := Prod.mk.inj hstatus
  exact ⟨s, t, hrunning, hcompleted, run_settlement (.of_exec hs) (.of_exec ht)⟩

end Settlement

end Omnion.Workflows
