import Omnion.Events.Runner

/-!
# Attempts of a delivery

A claim on a delivery counts as an attempt, whatever becomes of it. That bounds the
attempts only as far as somebody looks at the count: a worker does before it asks for
another attempt, a claim does not. A delivery whose last attempt is never reported is
claimed again when its lease is over.

## What is proved

* `run_withinAttempts` — in the runs where the last attempt of a delivery is reported
  within its lease, and nobody puts a delivery without attempts left in the queue, no
  delivery is claimed more often than it may be.
* `sixth_attempt` — a delivery of five attempts whose workers all crash is claimed a
  sixth time.
-/

namespace Omnion.Events

/-! ### Rounds -/

/-- The claims of each round, the current one first. A round begins when the delivery is
queued or forced again. -/
def Entry.round : List ℕ → Entry → List ℕ
  | ns, .queued _ | ns, .redelivered _ => 0 :: ns
  | n :: ns, .claimed .. => (n + 1) :: ns
  | ns, _ => ns

/-- The claims of each round of a history. -/
def rounds (history : List Entry) : List ℕ := history.foldl Entry.round []

theorem rounds_append (history : List Entry) (x : Entry) :
    rounds (history ++ [x]) = Entry.round (rounds history) x := List.foldl_concat ..

/-- The current round of a delivery has as many claims as the delivery has attempts. -/
def Delivery.Counted (s : Queue) (d : Delivery) : Prop := (rounds (s.of d.id)).head? = some d.attempts

namespace Queue

/-- Every delivery's attempts are counted. -/
def Counted (s : Queue) : Prop := ∀ d ∈ s.store.deliveries, d.Counted s

/-- **No delivery is claimed more often than it may be**: not in any round, and not once
its attempts are used up. -/
def WithinAttempts (s : Queue) : Prop :=
  (∀ d ∈ s.store.deliveries, ∀ n ∈ rounds (s.of d.id), n ≤ d.maxAttempts) ∧
    ∀ id attempts maxAttempts, .claimed id attempts maxAttempts ∈ s.history → attempts < maxAttempts

end Queue

/-- The delivery waits to be sent, and its attempts are used up. -/
def Delivery.Spent (d : Delivery) : Prop := d.status = .pending ∧ d.maxAttempts ≤ d.attempts

/-- **The steps allowed**: the last attempt of a delivery is reported before its lease is
over, and nobody schedules another attempt of a delivery that has none left. -/
def Queue.InTime (config : RunnerConfig) (s : Queue) : Step → Prop
  | .tick now => ∀ d ∈ s.store.deliveries, d.Spent → d.leased now config.leaseSeconds = true
  | .mark i => ∀ j responseStatus error nextAttemptAt durationMs jobs,
    s.workers i = .marking j (.retry responseStatus error nextAttemptAt durationMs) jobs →
      ∀ d ∈ s.store.deliveries, d.id = j.job.deliveryId → ¬ d.Spent
  | _ => True

/-- **The invariant**: a delivery whose attempts are used up is held by its last claim. -/
structure Delivery.Within (config : RunnerConfig) (s : Queue) (d : Delivery) : Prop where
  rounds : ∀ n ∈ rounds (s.of d.id), n ≤ d.maxAttempts
  allowed : 0 < d.maxAttempts
  attempts : d.attempts ≤ d.maxAttempts
  spent : d.Spent → d.leased s.store.now config.leaseSeconds = true

/-- The invariant of every delivery. -/
def Queue.Within (config : RunnerConfig) (s : Queue) : Prop :=
  ∀ d ∈ s.store.deliveries, d.Within config s

section Attempts

variable {config : RunnerConfig} {s t : Queue} {e : Step} {a d : Delivery}

/-- Every step keeps the count. -/
theorem Became.counted (h : Became config s t e a d) (ha : a.Counted s) : d.Counted t := by
  unfold Delivery.Counted at *
  rw [h.id]
  cases h with
  | same hlog => rwa [hlog]
  | claimed hstep hdue hlog =>
    obtain ⟨earlier, hrounds⟩ := List.head?_eq_some_iff.mp ha
    rw [hlog, rounds_append, hrounds]
    rfl
  | @marked i j m jobs hstep hmarking hid hlog =>
    rw [hlog]
    cases m with
    | delivered responseStatus durationMs =>
      obtain ⟨earlier, hrounds⟩ := List.head?_eq_some_iff.mp ha
      rw [Mark.entries, rounds_append, hrounds]
      rfl
    | retry responseStatus error nextAttemptAt durationMs => rwa [Mark.entries, List.append_nil]
    | failed responseStatus error durationMs => rwa [Mark.entries, List.append_nil]
  | cancelled hstep habandoned hlog => rwa [hlog]
  | redelivered hstep hsettled hlog =>
    rw [hlog, rounds_append]
    rfl

/-- **Attempts are claims**: in every run the attempts of a delivery are the claims on it
since it was queued or last forced again. -/
theorem run_counted {now : Instant} {ok : Queue → Step → Prop} {es : List Step}
    (h : Transition.Run (queueStep config) ok (.empty now) es s) : s.Counted := by
  refine h.invariant_of (I := Queue.Counted) (fun _ hd => absurd hd List.not_mem_nil) run_known
    fun x e y hx hi _ hs d hd => ?_
  rcases (took hs).rows hx hd with hinserted | ⟨a, ha, hbecame⟩
  · rw [Delivery.Counted, hinserted.log, hinserted.fresh.attempts]
    rfl
  · exact hbecame.counted (hi a ha)

theorem Delivery.Within.not_spent (ha : a.Within config s) {locked : List Uuid}
    (hdue : a ∈ s.store.due config locked) : a.attempts < a.maxAttempts := by
  obtain ⟨hpending, -, -, hleased⟩ := Store.isDue_iff.mp (Store.mem_due hdue).2
  by_contra hattempts
  have hspent := ha.spent ⟨hpending, Nat.le_of_not_lt hattempts⟩
  rw [hleased] at hspent
  cases hspent

theorem Inserted.within (h : Inserted s t d) : d.Within config t := by
  have hmax : d.maxAttempts = 5 := h.fresh.maxAttempts
  have hattempts := h.fresh.attempts
  refine ⟨fun n hn => ?_, by omega, by omega, fun hspent => ?_⟩
  · rw [h.log] at hn
    obtain rfl := List.mem_singleton.mp hn
    exact Nat.zero_le _
  · have := hspent.2
    omega

/-- Every allowed step keeps the invariant. -/
theorem Became.within (h : Became config s t e a d) (ht : Took config s e t) (hok : s.InTime config e)
    (hcounted : a.Counted s) (hmem : a ∈ s.store.deliveries) (ha : a.Within config s) :
    d.Within config t := by
  have hnow : e ≠ .tick t.store.now → t.store.now = s.store.now := ht.now.resolve_right
  have hleft : ∀ {locked : List Uuid}, a ∈ s.store.due config locked → a.attempts < a.maxAttempts :=
    ha.not_spent
  obtain ⟨hrounds, hallowed, hattempts, hspent⟩ := ha
  cases h with
  | same hlog =>
    refine ⟨by rwa [hlog], hallowed, hattempts, fun h => ?_⟩
    rcases ht.now with hsame | rfl
    · rw [hsame]
      exact hspent h
    · exact hok a hmem h
  | @claimed i locked hstep hdue hlog =>
    have hleft := hleft hdue
    obtain ⟨earlier, hcurrent⟩ := List.head?_eq_some_iff.mp hcounted
    refine ⟨fun n hn => ?_, hallowed, hleft, fun _ => ?_⟩
    · rw [Delivery.claimed_id, hlog, rounds_append, hcurrent] at hn
      rw [hcurrent] at hrounds
      rcases List.mem_cons.mp hn with rfl | hn
      · exact hleft
      · exact hrounds n (List.mem_cons_of_mem _ hn)
    · rw [hnow (by rw [hstep]; rintro ⟨⟩)]
      exact Delivery.leased_claimed _ _ config.leaseSeconds_pos
  | @marked i j m jobs hstep hmarking hid hlog =>
    subst hstep
    cases m with
    | delivered responseStatus durationMs =>
      obtain ⟨earlier, hcurrent⟩ := List.head?_eq_some_iff.mp hcounted
      refine ⟨fun n hn => hrounds n ?_, hallowed, hattempts, fun h => by cases h.1⟩
      rw [Mark.row_id, hlog, Mark.entries, rounds_append, hcurrent] at hn
      rwa [hcurrent]
    | retry responseStatus error nextAttemptAt durationMs =>
      refine ⟨fun n hn => hrounds n ?_, hallowed, hattempts, fun h => ?_⟩
      · rwa [Mark.row_id, hlog, Mark.entries, List.append_nil] at hn
      · exact absurd h (hok j responseStatus error nextAttemptAt durationMs jobs hmarking a hmem hid.symm)
    | failed responseStatus error durationMs =>
      refine ⟨fun n hn => hrounds n ?_, hallowed, hattempts, fun h => by cases h.1⟩
      rwa [Mark.row_id, hlog, Mark.entries, List.append_nil] at hn
  | cancelled hstep habandoned hlog =>
    refine ⟨?_, hallowed, hattempts, fun h => by cases h.1⟩
    rw [Delivery.cancelled_id, hlog]
    exact hrounds
  | redelivered hstep hsettled hlog =>
    refine ⟨fun n hn => ?_, hallowed, Nat.zero_le _, fun h => ?_⟩
    · rw [Delivery.redelivered_id, hlog, rounds_append] at hn
      rcases List.mem_cons.mp hn with rfl | hn
      · exact Nat.zero_le _
      · exact hrounds n hn
    · exact absurd h.2 (Nat.not_le.mpr hallowed)

theorem run_within {now : Instant} {es : List Step}
    (h : Transition.Run (queueStep config) (Queue.InTime config) (.empty now) es s) :
    s.Within config := by
  refine h.invariant_of (I := Queue.Within config) (J := fun x => x.Known ∧ x.Counted)
    (fun _ hd => absurd hd List.not_mem_nil) (fun hr => ⟨run_known hr, run_counted hr⟩)
    fun x e y hx hi hok hs d hd => ?_
  rcases (took hs).rows hx.1 hd with hinserted | ⟨a, ha, hbecame⟩
  · exact hinserted.within
  · exact hbecame.within (took hs) hok (hx.2 a ha) ha (hi a ha)

/-- **Attempts are bounded**: over any interleaving of workers, crashes and the clock in
which the last attempt of a delivery is reported within its lease, and nobody puts a
delivery without attempts left in the queue, a delivery is claimed at most as often as it
may be in every round, and never once its attempts are used up. -/
theorem run_withinAttempts {now : Instant} {es : List Step}
    (h : Transition.Run (queueStep config) (Queue.InTime config) (.empty now) es s) :
    s.WithinAttempts := by
  refine ⟨fun d hd => (run_within h d hd).rounds, ?_⟩
  refine h.invariant_of (I := fun x => ∀ id attempts maxAttempts,
      .claimed id attempts maxAttempts ∈ x.history → attempts < maxAttempts)
    (fun _ _ _ hx => absurd hx List.not_mem_nil) run_within
    fun x e y hx hi _ hs id attempts maxAttempts hy => ?_
  rcases (took hs).claimed hy with hy | ⟨i, locked, -, a, hdue, rfl, rfl⟩
  · exact hi id attempts maxAttempts hy
  · exact (hx a (Store.mem_due hdue).1).not_spent hdue

/-- Six workers crash one after the other. -/
def crashLoop : List Step :=
  [.connect receiver, published] ++ crashed 120000000 ++ crashed 240000000 ++ crashed 360000000 ++
    crashed 480000000 ++ crashed 600000000 ++ crashed 720000000

/-- The sixth claims a delivery that five before it have claimed, of five allowed. -/
theorem sixth_attempt :
    ¬ ∀ (config : RunnerConfig) (now : Instant) (es : List Step) (s : Queue),
      Transition.Run (queueStep config) Transition.Any (.empty now) es s → s.WithinAttempts := by
  intro h
  have hexec : (Transition.exec (queueStep {}) (.empty 0) crashLoop).map
      (fun s => decide (.claimed 40 5 5 ∈ s.history)) = some true := by decide
  obtain ⟨s, hs, hclaimed⟩ := Transition.Run.of_exec_map hexec
  have hbound := (h {} 0 crashLoop s hs).2 40 5 5 (of_decide_eq_true hclaimed)
  exact absurd hbound (by decide)

theorem Queue.inTime_of_left (s : Queue) (e : Step)
    (h : (s.store.deliveries.rows.all fun d => d.attempts < d.maxAttempts) = true) :
    s.InTime config e := by
  have hleft : ∀ d ∈ s.store.deliveries, ¬ d.Spent := fun d hd hspent =>
    Nat.not_lt.mpr hspent.2 (of_decide_eq_true (List.all_eq_true.mp h d hd))
  cases e with
  | tick now => exact fun d hd hspent => absurd hspent (hleft d hd)
  | mark i => exact fun _ _ _ _ _ _ _ d hd _ => hleft d hd
  | _ => trivial

/-- A first attempt fails, and a second is accepted. -/
def retried : List Step :=
  [.connect receiver, published, .cancel 0, .claim 0 [], .load 0,
    .send 0 (.failed (some 503) "the receiver answered 503: ") (some 20), .mark 0, .tick 15000000, .cancel 0,
    .claim 0 [], .load 0, .send 0 (.delivered 200) (some 20), .mark 0]

/-- The delivery is claimed twice, and accepted. -/
theorem run_withinAttempts_retried :
    ∃ s, Transition.Run (queueStep {}) (Queue.InTime {}) (.empty 0) retried s ∧
      s.of 40 = [.queued 40, .claimed 40 0 5, .claimed 40 1 5, .delivered 40] ∧ s.WithinAttempts := by
  have hexec : (Transition.exec (fun s e => if s.store.deliveries.rows.all (fun d => d.attempts < d.maxAttempts)
      then queueStep {} s e else none) (.empty 0) retried).map (·.of 40) =
      some [.queued 40, .claimed 40 0 5, .claimed 40 1 5, .delivered 40] := by decide
  obtain ⟨s, hrun, hlog⟩ := Transition.Run.of_exec_of_map Queue.inTime_of_left hexec
  exact ⟨s, hrun, hlog, run_withinAttempts hrun⟩

end Attempts

end Omnion.Events
