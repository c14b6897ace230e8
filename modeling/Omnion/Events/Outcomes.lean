import Omnion.Library.Fencing
import Omnion.Events.Runner

/-!
# Outcomes of a delivery

A claim on a delivery is a lease without a token: a worker reports on the delivery's
identifier alone, so a report made after the lease is over and the delivery claimed
again is written like any other. In the words of `Omnion.Library.Fencing` the claims on
a delivery are its token, and a worker that has still to report on one has a permit.

## What is proved

* `run_settledOnce` — in the runs where a delivery is claimed, or settled because its
  endpoint is switched off, only when no worker has still to report on it, what was
  accepted stays accepted until it is forced again, and every report is on the claim
  that holds the delivery.
* `slow_worker` — a worker slower than its lease reports a delivery as failed that
  another has delivered.
-/

namespace Omnion.Events

/-! ### What the history says -/

/-- The delivery was accepted, and not forced again since. -/
def Entry.accepts : Bool → Entry → Bool
  | _, .delivered _ => true
  | _, .redelivered _ | _, .queued _ => false
  | accepted, .claimed .. => accepted

/-- The receiver accepted the delivery since it was last forced again. -/
def accepted (history : List Entry) : Bool := history.foldl Entry.accepts false

theorem accepted_append (history : List Entry) (x : Entry) :
    accepted (history ++ [x]) = Entry.accepts (accepted history) x := List.foldl_concat ..

/-- **Outcomes are those of the claims**: what was accepted stays accepted until it is
forced again, and every report is on the claim that holds the delivery. -/
def Queue.SettledOnce (s : Queue) : Prop :=
  (∀ d ∈ s.store.deliveries, accepted (s.of d.id) = true → d.status = .delivered) ∧
    ∀ x ∈ s.reports, x.held = some x.claim

/-! ### Permits -/

def ClaimedJob.permit (j : ClaimedJob) : Uuid × ℕ := (j.job.deliveryId, j.claim)

/-- The claims a worker has still to report on. -/
def Worker.permits : Worker → List (Uuid × ℕ)
  | .idle | .settled => []
  | .claimed claims => claims
  | .sending j jobs | .marking j _ jobs => j.permit :: jobs.map (·.permit)
  | .announcing _ jobs => jobs.map (·.permit)

namespace Queue

/-- The claims all workers have still to report on. -/
def permits (s : Queue) (i : ℕ) : List (Uuid × ℕ) := (s.workers i).permits

/-- The claims on a delivery. -/
def token (s : Queue) (id : Uuid) : Option ℕ := some (s.claims id)

/-- **The steps allowed**: a delivery is claimed, or settled because its endpoint is
switched off, only when no worker has still to report on it. -/
def Alone (config : RunnerConfig) (s : Queue) : Step → Prop
  | .claim _ locked => ∀ d ∈ s.store.due config locked, Fencing.Quiet s.permits d.id
  | .cancel _ => ∀ d ∈ s.store.deliveries, s.store.isAbandoned config.leaseSeconds d = true →
    Fencing.Quiet s.permits d.id
  | _ => True

/-- **The invariant**: every claim still to be reported on is the delivery's last, and
holds it. -/
structure Settled (s : Queue) : Prop where
  current : Fencing.Current s.token s.permits
  exclusive : Fencing.Exclusive s.permits
  known : ∀ i, ∀ p ∈ s.permits i, s.of p.1 ≠ []
  held : ∀ i, ∀ p ∈ s.permits i, ∀ d ∈ s.store.deliveries, d.id = p.1 →
    d.status = .pending ∧ d.claimedAt.isSome
  once : s.SettledOnce

end Queue

section Outcomes

variable {config : RunnerConfig} {s t : Queue} {e : Step} {i : ℕ} {a d : Delivery}

@[simp] theorem Worker.permits_next (jobs : List ClaimedJob) :
    (Worker.next jobs).permits = jobs.map (·.permit) := by
  cases jobs <;> rfl

@[simp] theorem Worker.permits_holding (claims : List (Uuid × ℕ)) :
    (Worker.holding claims).permits = claims := by
  cases claims <;> rfl

@[simp] theorem Mark.permits_worker (m : Mark) (job : DeliveryJob) (jobs : List ClaimedJob) :
    (m.worker job jobs).permits = jobs.map (·.permit) := by
  cases m with
  | delivered responseStatus durationMs => exact Worker.permits_next jobs
  | retry responseStatus error nextAttemptAt durationMs => exact Worker.permits_next jobs
  | failed responseStatus error durationMs => rfl

theorem Queue.permits_jobs {claims : List (Uuid × ℕ)} {x : Uuid × ℕ}
    (hx : x ∈ (s.jobs claims).map (·.permit)) : x ∈ claims := by
  obtain ⟨j, hj, rfl⟩ := List.mem_map.mp hx
  obtain ⟨job, -, hj⟩ := List.mem_filterMap.mp hj
  obtain ⟨claim, hlookup, rfl⟩ := Option.map_eq_some_iff.mp hj
  obtain ⟨l, r, hclaims, -⟩ := List.lookup_eq_some_iff.mp hlookup
  rw [hclaims]
  exact List.mem_append_right _ List.mem_cons_self

theorem Queue.nodup_jobs (claims : List (Uuid × ℕ)) :
    (((s.jobs claims).map (·.permit)).map Prod.fst).Nodup := by
  rw [List.map_map]
  refine (s.store.nodup_loadJobs _).sublist (Table.keys_filterMap (fun job j hj => ?_) _)
  obtain ⟨claim, -, rfl⟩ := Option.map_eq_some_iff.mp hj
  rfl

theorem Moves.permits {p : Worker} (h : Moves config s i e p) (hs : Fencing.Exclusive s.permits) :
    (∀ x ∈ p.permits, x ∈ s.permits i) ∧ (p.permits.map Prod.fst).Nodup := by
  have hnodup : ((s.workers i).permits.map Prod.fst).Nodup := hs.1 i
  unfold Queue.permits
  cases h with
  | load hworker =>
    rw [hworker, Worker.permits_next]
    exact ⟨fun x hx => Queue.permits_jobs hx, Queue.nodup_jobs _⟩
  | send hworker =>
    rw [hworker] at hnodup ⊢
    exact ⟨fun x hx => hx, hnodup⟩
  | announce hworker =>
    rw [hworker] at hnodup ⊢
    rw [Worker.permits_next]
    exact ⟨fun x hx => hx, hnodup⟩
  | crash => exact ⟨fun x hx => absurd hx List.not_mem_nil, List.nodup_nil⟩

/-! ### What a step does to the claims -/

theorem Queue.claims_append {l : List Entry} (h : t.history = s.history ++ l) {id : Uuid}
    (hl : ∀ x ∈ l, x.isClaim = true → x.id ≠ id) : t.claims id = s.claims id := by
  have hnone : (l.filter (·.id = id)).countP Entry.isClaim = 0 := by
    rw [List.countP_eq_zero]
    intro x hx hclaim
    obtain ⟨hx, hid⟩ := List.mem_filter.mp hx
    exact hl x hx hclaim (of_decide_eq_true hid)
  rw [claims, of_append h, List.countP_append, hnone, Nat.add_zero, claims]

/-- A delivery that is not claimed keeps its claims. -/
theorem Took.claims (h : Took config s e t) {id : Uuid}
    (hother : ∀ i locked, e = .claim i locked → ∀ d ∈ s.store.due config locked, d.id ≠ id) :
    t.claims id = s.claims id := by
  have hqueued : ∀ (rows : List Delivery), ∀ x ∈ rows.map (Entry.queued ·.id), x.isClaim = true → x.id ≠ id := by
    intro rows x hx hclaim
    obtain ⟨r, -, rfl⟩ := List.mem_map.mp hx
    cases hclaim
  cases h with
  | emit hemitted =>
    obtain ⟨rows, hhistory, -⟩ := Queue.emitted_eq_some hemitted
    exact Queue.claims_append hhistory (hqueued rows)
  | announce hworker hemitted =>
    obtain ⟨rows, hhistory, -⟩ := Queue.emitted_eq_some hemitted
    exact Queue.claims_append hhistory (hqueued rows)
  | redeliver hredeliver =>
    apply Queue.claims_append rfl
    intro x hx hclaim
    rw [List.mem_singleton.mp hx] at hclaim
    cases hclaim
  | @claim i locked hsettled =>
    apply Queue.claims_append rfl
    intro x hx _
    obtain ⟨d, hd, rfl⟩ := List.mem_map.mp hx
    exact hother i locked rfl d hd
  | @mark i j m jobs hmarking =>
    apply Queue.claims_append rfl
    intro x hx hclaim
    obtain ⟨d, -, hentry⟩ := List.mem_flatMap.mp hx
    cases m <;> simp [Mark.entries] at hentry
    rw [hentry] at hclaim
    cases hclaim
  | _ => rfl

theorem Queue.claims_claim {locked : List Uuid} (hdue : d ∈ s.store.due config locked)
    (h : t.history = s.history ++ (s.store.due config locked).map fun d =>
      .claimed d.id d.attempts d.maxAttempts) :
    t.claims d.id = s.claims d.id + 1 := by
  have hentry := filter_entries (f := fun d => .claimed d.id d.attempts d.maxAttempts) (fun _ => rfl)
    Store.nodup_due hdue
  rw [claims, of_append h, hentry, List.countP_append, claims]
  rfl

/-- Only a claim takes permits. -/
theorem Took.permits (h : Took config s e t) (hs : Fencing.Exclusive s.permits)
    (hne : ∀ i locked, e ≠ .claim i locked) (k : ℕ) :
    (∀ x ∈ t.permits k, x ∈ s.permits k) ∧ ((t.permits k).map Prod.fst).Nodup := by
  have hsame : ∀ k, (∀ x ∈ s.permits k, x ∈ s.permits k) ∧ ((s.permits k).map Prod.fst).Nodup :=
    fun k => ⟨fun x hx => hx, hs.1 k⟩
  have hmove : ∀ {i : ℕ} {p : Worker}, (∀ x ∈ p.permits, x ∈ s.permits i) ∧ (p.permits.map Prod.fst).Nodup →
      (∀ x ∈ (Function.update s.workers i p k).permits, x ∈ s.permits k) ∧
        ((Function.update s.workers i p k).permits.map Prod.fst).Nodup := fun {i p} hp =>
    (Function.forall_update_iff s.workers fun k p => (∀ x ∈ p.permits, x ∈ s.permits k) ∧
      (p.permits.map Prod.fst).Nodup).mpr ⟨hp, fun k _ => hsame k⟩ k
  cases h with
  | move hmoves => exact hmove (hmoves.permits hs)
  | emit hemitted =>
    unfold Queue.permits
    rw [Queue.workers_emitted hemitted]
    exact hsame k
  | @announce i event jobs newId u hworker hemitted =>
    have hmoves : Moves config s i (.announce i newId) (.next jobs) := .announce hworker
    unfold Queue.permits Queue.move
    rw [Queue.workers_emitted hemitted]
    exact hmove (hmoves.permits hs)
  | cancel hidle => exact hmove ⟨fun x hx => absurd hx List.not_mem_nil, List.nodup_nil⟩
  | @claim i locked hsettled => exact absurd rfl (hne i locked)
  | @mark i j m jobs hmarking =>
    have hi : s.permits i = j.permit :: jobs.map (·.permit) := by
      unfold Queue.permits
      rw [hmarking]
      rfl
    have hnodup := hs.1 i
    rw [hi] at hnodup
    refine hmove ⟨fun x hx => ?_, ?_⟩
    · rw [Mark.permits_worker] at hx
      rw [hi]
      exact List.mem_cons_of_mem _ hx
    · rw [Mark.permits_worker]
      exact (List.nodup_cons.mp hnodup).2
  | _ => exact hsame k

theorem Queue.quiet_mark {j : ClaimedJob} {m : Mark} {jobs : List ClaimedJob}
    (hs : Fencing.Exclusive s.permits) (hmarking : s.workers i = .marking j m jobs) :
    Fencing.Quiet ((s.report j m).move i (m.worker j.job jobs)).permits j.job.deliveryId := by
  have hi : (s.workers i).permits = j.permit :: jobs.map (·.permit) := by
    rw [hmarking]
    rfl
  apply Fencing.Exclusive.quiet (f := Worker.permits) hs hi
  intro y hy
  rwa [Mark.permits_worker] at hy

/-! ### The invariant -/

/-- What a worker has still to report on stays pending and claimed, unless it reports. -/
theorem Queue.Settled.held_step (h : s.Settled) (hknown : s.Known) (hok : s.Alone config e)
    (ht : Took config s e t) {p : Uuid × ℕ} (hp : p ∈ s.permits i)
    (hmark : ∀ k j m jobs, e = .mark k → s.workers k = .marking j m jobs → j.job.deliveryId ≠ p.1)
    (hd : d ∈ t.store.deliveries) (hid : d.id = p.1) : d.status = .pending ∧ d.claimedAt.isSome := by
  rcases ht.rows hknown hd with hinserted | ⟨a, ha, hbecame⟩
  · have hnone : s.of p.1 = [] :=
      List.filter_eq_nil_iff.mpr fun x hx => by simpa [← hid] using hinserted.new x hx
    exact absurd hnone (h.known i p hp)
  · have haid : a.id = p.1 := hbecame.id.symm.trans hid
    obtain ⟨hpending, hclaimed⟩ := h.held i p hp a ha haid
    cases hbecame with
    | same hlog => exact ⟨hpending, hclaimed⟩
    | claimed hstep hdue hlog => exact ⟨hpending, rfl⟩
    | marked hstep hmarking hjob hlog => exact absurd (hjob.trans haid) (hmark _ _ _ _ hstep hmarking)
    | cancelled hstep habandoned hlog =>
      subst hstep
      exact absurd haid.symm (hok a ha habandoned i p hp)
    | redelivered hstep hsettled hlog => exact absurd hpending hsettled

theorem Queue.Settled.holder_eq (h : s.Settled) {j : ClaimedJob} {m : Mark} {jobs : List ClaimedJob}
    (hmarking : s.workers i = .marking j m jobs) (ha : a ∈ s.store.deliveries)
    (hid : a.id = j.job.deliveryId) :
    s.holder a = some j.claim := by
  have hmem : j.permit ∈ s.permits i := by
    unfold Queue.permits
    rw [hmarking]
    exact List.mem_cons_self
  have hheld := h.held i j.permit hmem a ha hid
  have hcurrent : some (s.claims j.job.deliveryId) = some j.claim := h.current i j.permit hmem
  rw [Queue.holder, if_pos hheld, hid, hcurrent]

theorem Queue.Settled.accepted_step (h : s.Settled) (hknown : s.Known) (ht : Took config s e t)
    (hd : d ∈ t.store.deliveries) (haccepted : accepted (t.of d.id) = true) :
    d.status = .delivered := by
  rcases ht.rows hknown hd with hinserted | ⟨a, ha, hbecame⟩
  · rw [hinserted.log] at haccepted
    cases haccepted
  · have hdelivered := h.once.1 a ha
    rw [hbecame.id] at haccepted
    cases hbecame with
    | same hlog => exact hdelivered (hlog ▸ haccepted)
    | claimed hstep hdue hlog =>
      rw [hlog, accepted_append] at haccepted
      exact hdelivered haccepted
    | @marked i j m jobs hstep hmarking hid hlog =>
      cases m with
      | delivered responseStatus durationMs => rfl
      | retry responseStatus error nextAttemptAt durationMs =>
        rw [hlog, Mark.entries, List.append_nil] at haccepted
        exact hdelivered haccepted
      | failed responseStatus error durationMs =>
        -- the worker holds a delivery that is pending
        rw [hlog, Mark.entries, List.append_nil] at haccepted
        have hheld := h.holder_eq hmarking ha hid.symm
        unfold Queue.holder at hheld
        split_ifs at hheld with hpending
        rw [hdelivered haccepted] at hpending
        cases hpending.1
    | cancelled hstep habandoned hlog =>
      have hpending := (Store.isAbandoned_iff.mp habandoned).2.1
      rw [hdelivered (hlog ▸ haccepted)] at hpending
      cases hpending
    | redelivered hstep hsettled hlog =>
      rw [hlog, accepted_append] at haccepted
      cases haccepted

theorem Queue.Settled.reports_step (h : s.Settled) (ht : Took config s e t) :
    ∀ x ∈ t.reports, x.held = some x.claim := by
  cases ht with
  | emit hemitted =>
    rw [Queue.reports_emitted hemitted]
    exact h.once.2
  | announce hworker hemitted =>
    rw [Queue.move, Queue.reports_emitted hemitted]
    exact h.once.2
  | @mark i j m jobs hmarking =>
    intro x hx
    rcases List.mem_append.mp hx with hx | hx
    · exact h.once.2 x hx
    · obtain ⟨a, ha, rfl⟩ := List.mem_map.mp hx
      obtain ⟨ha, hid⟩ := Table.find?_eq_some.mp (Option.mem_toList.mp ha)
      exact h.holder_eq hmarking ha hid
  | _ => exact h.once.2

/-- After a claim, the permits are those there were and those on what was claimed. -/
theorem Queue.permits_claim {locked : List Uuid} {k : ℕ} {x : Uuid × ℕ}
    (hx : x ∈ (s.claim config i locked).permits k) :
    x ∈ s.permits k ∨ ∃ d ∈ s.store.due config locked, x = (d.id, s.claims d.id + 1) := by
  simp only [permits, claim, move, Function.update_apply] at hx
  split_ifs at hx with hk
  · rw [Worker.permits_holding] at hx
    obtain ⟨d, hd, rfl⟩ := List.mem_map.mp hx
    exact .inr ⟨d, hd, rfl⟩
  · exact .inl hx

/-- A claim on quiet deliveries keeps the invariant. -/
theorem Queue.Settled.claim_step {locked : List Uuid} (h : s.Settled) (hknown : s.Known)
    (hok : s.Alone config (.claim i locked)) (ht : Took config s (.claim i locked) (s.claim config i locked))
    (honce : (s.claim config i locked).SettledOnce) : (s.claim config i locked).Settled := by
  have hmem : ∀ {d : Delivery}, d ∈ s.store.due config locked → d ∈ s.store.deliveries :=
    fun hd => (Store.mem_due hd).1
  have hcurrent : Fencing.Current (s.claim config i locked).token s.permits := by
    intro k x hx
    have hother : (s.claim config i locked).claims x.1 = s.claims x.1 := by
      apply ht.claims
      intro _ _ he d hd
      cases he
      exact (hok d hd k x hx).symm
    have hold := h.current k x hx
    rwa [Queue.token, ← hother] at hold
  refine ⟨?_, ?_, fun k x hx => ht.of_ne_nil ?_, fun k x hx d hd hid => ?_, honce⟩
  · refine hcurrent.update (f := Worker.permits) fun x hx => .inr ?_
    rw [Worker.permits_holding] at hx
    obtain ⟨d, hd, rfl⟩ := List.mem_map.mp hx
    rw [Queue.token, Queue.claims_claim hd rfl]
  · refine h.exclusive.update (f := Worker.permits) ?_ fun x hx => .inr ?_
    · rw [Worker.permits_holding, List.map_map]
      exact Store.nodup_due
    · rw [Worker.permits_holding] at hx
      obtain ⟨d, hd, rfl⟩ := List.mem_map.mp hx
      exact hok d hd
  · rcases Queue.permits_claim hx with hold | ⟨d, hd, rfl⟩
    · exact h.known k x hold
    · exact hknown d (hmem hd)
  · rcases Queue.permits_claim hx with hold | ⟨a, ha, rfl⟩
    · exact h.held_step hknown hok ht hold (fun _ _ _ _ he => by cases he) hd hid
    · obtain ⟨b, hb, ⟨hdue, rfl⟩ | ⟨hdue, rfl⟩⟩ := Store.mem_claimDue.mp hd
      · exact ⟨(Store.isDue_iff.mp (Store.mem_due hdue).2).1, rfl⟩
      · exact absurd (Table.eq_of_key hb (hmem ha) hid ▸ ha) hdue

/-- **One step keeps the invariant.** -/
theorem Queue.Settled.step (h : s.Settled) (hknown : s.Known) (hok : s.Alone config e)
    (ht : Took config s e t) : t.Settled := by
  have honce : t.SettledOnce := ⟨fun d hd => h.accepted_step hknown ht hd, h.reports_step ht⟩
  by_cases hclaim : ∃ i locked, e = .claim i locked
  · -- a claim takes permits on quiet deliveries
    obtain ⟨i, locked, rfl⟩ := hclaim
    cases ht with
    | keep hoperators hmem hnow => cases hoperators
    | move hmoves => cases hmoves
    | claim hsettled =>
      exact h.claim_step hknown hok (.claim hsettled) honce
  · have hne : ∀ i locked, e ≠ .claim i locked := fun i locked he => hclaim ⟨i, locked, he⟩
    have hpermits := ht.permits h.exclusive hne
    have hsub := fun k => (hpermits k).1
    refine ⟨(h.current.anti hsub).mono fun id n hn => ?_, h.exclusive.anti hsub fun k => (hpermits k).2,
      fun k p hp => ht.of_ne_nil (h.known k p (hsub k p hp)), fun k p hp d hd hid => ?_, honce⟩
    · rw [← hn, Queue.token, ht.claims fun i locked he => absurd he (hne i locked), Queue.token]
    · refine h.held_step hknown hok ht (hsub k p hp) (fun i j m jobs he hmarking => ?_) hd hid
      subst he
      cases ht with
      | keep hoperators hmem hnow => cases hoperators
      | move hmoves => cases hmoves
      | mark hmarking' =>
        obtain ⟨rfl, rfl, rfl⟩ : _ ∧ _ ∧ _ := by simpa [hmarking] using hmarking'
        exact Ne.symm (Queue.quiet_mark h.exclusive hmarking k p hp)

theorem Queue.settled_empty (now : Instant) : (Queue.empty now).Settled :=
  ⟨fun _ _ hx => absurd hx List.not_mem_nil, ⟨fun _ => List.nodup_nil, fun _ _ _ _ hx => absurd hx List.not_mem_nil⟩,
    fun _ _ hx => absurd hx List.not_mem_nil, fun _ _ hx => absurd hx List.not_mem_nil,
    fun _ hd => absurd hd List.not_mem_nil, fun _ hx => absurd hx List.not_mem_nil⟩

/-- **Deliveries settle once**: over any interleaving of workers, crashes and the clock in
which a delivery is claimed, or settled because its endpoint is switched off, only when
no worker has still to report on it, what was accepted stays accepted until it is forced
again, and every report is on the claim that holds the delivery. -/
theorem run_settledOnce {now : Instant} {es : List Step}
    (h : Transition.Run (queueStep config) (Queue.Alone config) (.empty now) es s) : s.SettledOnce := by
  have hsettled : s.Settled := h.invariant_of (Queue.settled_empty now) run_known
    fun _ _ _ hknown hx hok hs => hx.step hknown hok (took hs)
  exact hsettled.once

/-- Four workers crash; worker 1 makes the fifth attempt, and is slow. When its lease is
over worker 2 delivers, and then the fifth attempt fails. -/
def slowWorker : List Step :=
  [.connect receiver, published] ++ crashed 120000000 ++ crashed 240000000 ++ crashed 360000000 ++
    crashed 480000000 ++
    [.cancel 1, .claim 1 [], .load 1, .tick 600000000, .cancel 2, .claim 2 [], .load 2,
      .send 2 (.delivered 200) (some 20), .mark 2, .send 1 (.failed none "the receiver could not be reached") none,
      .mark 1]

/-- The delivery was accepted, and has failed. -/
theorem slow_worker :
    ¬ ∀ (config : RunnerConfig) (now : Instant) (es : List Step) (s : Queue),
      Transition.Run (queueStep config) Transition.Any (.empty now) es s → s.SettledOnce := by
  intro h
  have hexec : (Transition.exec (queueStep {}) (.empty 0) slowWorker).map
      (fun s => (s.store.deliveries.rows.map fun d => (d.id, d.status), accepted (s.of 40))) =
      some ([(40, .failed)], true) := by decide
  obtain ⟨s, hs, hresult⟩ := Transition.Run.of_exec_map hexec
  obtain ⟨hrows, haccepted⟩ := Prod.mk.inj hresult
  obtain ⟨d, hd, hrow⟩ := List.mem_map.mp (hrows ▸ List.mem_singleton_self _)
  obtain ⟨hid, hstatus⟩ := Prod.mk.inj hrow
  have hdelivered := (h {} 0 slowWorker s hs).1 d hd (hid.symm ▸ haccepted)
  rw [hstatus] at hdelivered
  cases hdelivered

/-- A worker fails, and a quarter of a minute later another delivers. -/
def failedOnce : List Step :=
  [.connect receiver, published, .cancel 0, .claim 0 [], .load 0,
    .send 0 (.failed (some 503) "the receiver answered 503: ") (some 20), .mark 0, .tick 15000000, .cancel 1,
    .claim 1 [], .load 1, .send 1 (.delivered 200) (some 20), .mark 1]

/-- Both report on the claim that holds the delivery. -/
theorem run_settledOnce_retried :
    ∃ s, Transition.Run (queueStep {}) (Queue.Alone {}) (.empty 0)
      failedOnce s ∧ s.reports.length = 2 ∧ s.SettledOnce := by
  have hquiet : ∀ {s : Queue} {id : Uuid}, (∀ j, s.permits j = []) → Fencing.Quiet s.permits id := by
    intro s id hnone j x hx
    rw [hnone j] at hx
    exact absurd hx List.not_mem_nil
  have hrun : ∃ s, Transition.Run (queueStep {}) (Queue.Alone {}) (.empty 0)
      failedOnce s ∧ s.reports.length = 2 := by
    refine ⟨_, .cons trivial rfl (.cons trivial rfl (.cons (fun _ _ _ => hquiet fun _ => rfl) rfl
      (.cons (fun _ _ => hquiet ?_) rfl (.cons trivial rfl (.cons trivial rfl (.cons trivial rfl (.cons trivial rfl
      (.cons (fun _ _ _ => hquiet ?_) rfl (.cons (fun _ _ => hquiet ?_) rfl (.cons trivial rfl (.cons trivial rfl
      (.cons trivial rfl .nil)))))))))))), rfl⟩
    all_goals rintro (_ | _ | j) <;> rfl
  obtain ⟨s, hrun, hreports⟩ := hrun
  exact ⟨s, hrun, hreports, run_settledOnce hrun⟩

end Outcomes

end Omnion.Events
