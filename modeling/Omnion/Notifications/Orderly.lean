import Omnion.Library.Fencing
import Omnion.Library.Run
import Omnion.Notifications.Queue

/-!
# Runs of the delivery queue

A claim is a lease without a token, and no statement that claims looks at the attempts made. In the
words of `Omnion.Library.Fencing` the claims on a delivery are its token, and a runner that has
still to report on one has a permit.

## What is proved

* `run_orderly` — then, and where the last attempt of a delivery is reported within its lease and
  does not miss its transport, a delivery is claimed at most as often as it may be since it was
  queued or put back, what is sent or failed stays so until it is put back, and every report is by
  the claim that holds the delivery.
* `fourth_attempt` — what happens otherwise.
-/

namespace Omnion.Notifications

open Transition

namespace Queue

/-! ### What is to hold -/

/-- **Orderly**: no delivery is claimed more often than it may be, what is sent or failed stays so,
and every report is by the
claim that holds the delivery. -/
structure Orderly (s : Queue) : Prop where
  attempts : ∀ d ∈ s.deliveries, s.round d.id ≤ d.maxAttempts
  final : ∀ x ∈ s.finals, ∃ d ∈ s.deliveries, d.id = x.1 ∧ d.status = x.2
  held : ∀ r ∈ s.reports, r.held = some r.claim

end Queue

def ClaimedJob.permit (j : ClaimedJob) : Uuid × ℕ := (j.job.id, j.claim)

/-- The claims a runner has still to report on. -/
def Runner.permits : Runner → List (Uuid × ℕ)
  | .idle | .settled => []
  | .claimed claims => claims
  | .sending j jobs | .marking j _ jobs => j.permit :: jobs.map (·.permit)

/-- The report puts the delivery back on the queue. -/
def Mark.isRetry : Mark → Bool
  | .retry .. => true
  | .sent _ | .failed .. => false

/-- The delivery waits to be sent, and its attempts are used up. -/
def Delivery.Spent (d : Delivery) : Prop := d.status = .pending ∧ d.maxAttempts ≤ d.attempts

namespace Queue

/-- The claims all runners have still to report on. -/
def permits (s : Queue) (i : ℕ) : List (Uuid × ℕ) := (s.runners i).permits

/-- **The steps allowed**: no runner has still to report on what is claimed; the last attempt of a
delivery does not miss its
transport, and is reported before its lease is over. -/
def InTime (config : DeliveryConfig) (s : Queue) : QueueEvent → Prop
  | .claim _ locked => ∀ d ∈ s.due config locked, Fencing.Quiet s.permits d.id
  | .send i none => ∀ j jobs, s.runners i = .sending j jobs → j.job.attempts < j.job.maxAttempts
  | .tick now => ∀ d ∈ s.deliveries, d.Spent → d.leased now config.leaseSeconds = true
  | _ => True

/-! ### The invariant -/

/-- What is known of a row. -/
structure Within (config : DeliveryConfig) (s : Queue) (d : Delivery) : Prop where
  counted : s.round d.id = d.attempts
  allowed : 0 < d.maxAttempts
  attempts : d.attempts ≤ d.maxAttempts
  /-- A row whose attempts are used up is held by its last claim. -/
  spent : d.Spent → d.leased s.now config.leaseSeconds = true

/-- A claim still to be reported on holds its delivery, or that is settled. -/
def Held (s : Queue) (p : Uuid × ℕ) : Prop := ∀ d ∈ s.deliveries, d.id = p.1 →
  d.status = .pending ∧ d.claimedAt.isSome = true ∧ s.claims p.1 = p.2 ∨ d.status = .skipped

/-- A job has the attempts of its delivery. -/
def Matches (s : Queue) (j : ClaimedJob) : Prop := ∀ d ∈ s.deliveries, d.id = j.job.id → d.status = .pending →
  d.attempts = j.job.attempts ∧ d.maxAttempts = j.job.maxAttempts

/-- What a runner knows: its jobs have the attempts of their deliveries, and it puts back only what
has attempts left. -/
def Fits (s : Queue) : Runner → Prop
  | .idle | .settled | .claimed _ => True
  | .sending j jobs => ∀ k ∈ j :: jobs, s.Matches k
  | .marking j m jobs => (∀ d ∈ s.deliveries, d.id = j.job.id → d.status = .pending → m.isRetry = true →
    d.attempts < d.maxAttempts) ∧
    ∀ k ∈ jobs, s.Matches k

/-- **The invariant.** -/
structure Sound (config : DeliveryConfig) (s : Queue) : Prop where
  rows : ∀ d ∈ s.deliveries, s.Within config d
  exclusive : Fencing.Exclusive s.permits
  known : ∀ i, ∀ p ∈ s.permits i, ∃ d ∈ s.deliveries, d.id = p.1
  held : ∀ i, ∀ p ∈ s.permits i, s.Held p
  fits : ∀ i, s.Fits (s.runners i)
  reports : ∀ r ∈ s.reports, r.held = some r.claim

/-- Nothing happens to a delivery, except that it is settled. -/
def Still (s t : Queue) (id : Uuid) : Prop :=
  (∀ d ∈ t.deliveries, d.id = id → d ∈ s.deliveries ∨ d.status = .skipped) ∧ t.claims id = s.claims id

variable {config : DeliveryConfig} {s t : Queue} {i : ℕ} {p : Runner}

theorem Held.still {x : Uuid × ℕ} (h : s.Held x) (hstill : s.Still t x.1) : t.Held x := by
  intro d hd hid
  rcases hstill.1 d hd hid with hd | hskipped
  · rw [hstill.2]
    exact h d hd hid
  · exact .inr hskipped

theorem Matches.still {j : ClaimedJob} (h : s.Matches j) (hstill : s.Still t j.job.id) : t.Matches j := by
  intro d hd hid hpending
  rcases hstill.1 d hd hid with hd | hskipped
  · exact h d hd hid hpending
  · rw [hskipped] at hpending
    cases hpending

theorem Fits.still (h : s.Fits p) (hstill : ∀ x ∈ p.permits, s.Still t x.1) : t.Fits p := by
  cases p with
  | idle => trivial
  | settled => trivial
  | claimed claims => trivial
  | sending j jobs =>
    intro k hk
    exact (h k hk).still (hstill k.permit (List.mem_map_of_mem (f := ClaimedJob.permit) hk))
  | marking j m jobs =>
    refine ⟨fun d hd hid hpending hretry => ?_, fun k hk => (h.2 k hk).still (hstill k.permit ?_)⟩
    · rcases (hstill j.permit List.mem_cons_self).1 d hd hid with hd | hskipped
      · exact h.1 d hd hid hpending hretry
      · rw [hskipped] at hpending
        cases hpending
    · exact List.mem_cons_of_mem _ (List.mem_map_of_mem hk)

/-- **A runner goes on** with claims it had, and nothing happens to what is still to be reported on. -/
theorem Sound.go (h : s.Sound config) (hrunners : t.runners = Function.update s.runners i p)
    (hsub : ∀ x ∈ p.permits, x ∈ s.permits i) (hnodup : (p.permits.map Prod.fst).Nodup)
    (hstill : ∀ k, ∀ x ∈ t.permits k, s.Still t x.1) (hfits : t.Fits p) (hrows : ∀ d ∈ t.deliveries, t.Within config d)
    (hkept : ∀ d ∈ s.deliveries, ∃ e ∈ t.deliveries, e.id = d.id) (hreports : ∀ r ∈ t.reports, r.held = some r.claim) :
    t.Sound config := by
  have hpermits : ∀ k, ∀ x ∈ t.permits k, x ∈ s.permits k := by
    intro k x hx
    rw [permits, hrunners, Function.update_apply] at hx
    split_ifs at hx with hk
    · subst hk
      exact hsub x hx
    · exact hx
  refine ⟨hrows, h.exclusive.anti hpermits fun k => ?_, fun k x hx => ?_,
    fun k x hx => (h.held k x (hpermits k x hx)).still (hstill k x hx),
    fun k => ?_, hreports⟩
  · rw [permits, hrunners, Function.update_apply]
    split_ifs
    · exact hnodup
    · exact h.exclusive.1 k
  · obtain ⟨d, hd, hid⟩ := h.known k x (hpermits k x hx)
    obtain ⟨e, he, hid'⟩ := hkept d hd
    exact ⟨e, he, hid'.trans hid⟩
  · have hstill' := hstill k
    rw [permits] at hstill'
    rw [hrunners, Function.update_apply] at hstill' ⊢
    split_ifs at hstill' ⊢
    · exact hfits
    · exact (h.fits k).still hstill'

theorem Sound.stays (h : s.Sound config) (hrunners : t.runners = s.runners)
    (hstill : ∀ k, ∀ x ∈ s.permits k, s.Still t x.1)
    (hrows : ∀ d ∈ t.deliveries, t.Within config d) (hkept : ∀ d ∈ s.deliveries, ∃ e ∈ t.deliveries, e.id = d.id)
    (hreports : t.reports = s.reports) : t.Sound config := by
  have hpermits : t.permits = s.permits := by
    funext k
    rw [permits, hrunners, permits]
  refine h.go (i := 0) (p := s.runners 0) (by rw [hrunners, Function.update_eq_self]) (fun _ hx => hx) (h.exclusive.1 0)
    (by rwa [hpermits]) ((h.fits 0).still (hstill 0)) hrows hkept (by rw [hreports]; exact h.reports)

theorem Within.congr {d : Delivery} (h : s.Within config d) (hround : t.round d.id = s.round d.id)
    (hnow : t.now = s.now) :
    t.Within config d :=
  ⟨hround.trans h.counted, h.allowed, h.attempts, by rw [hnow]; exact h.spent⟩

/-! ### Statements -/

variable {d : Delivery} {locked : List Uuid}

theorem Sound.not_spent (h : s.Sound config) (hdue : d ∈ s.due config locked) : d.attempts < d.maxAttempts := by
  obtain ⟨hd, hpending, hleased⟩ := mem_due hdue
  by_contra hspent
  rw [(h.rows d hd).spent ⟨hpending, Nat.le_of_not_lt hspent⟩] at hleased
  cases hleased

theorem Sound.queued (h : s.Sound config) {row : QueuedRow} {id notificationId : Uuid}
    {deliveries : Table Delivery Delivery.id}
    (hinsert : s.deliveries.insert? (row.delivery id notificationId s.now) = some deliveries) :
    ({ s with deliveries, round := Function.update s.round id 0 } : Queue).Sound config := by
  have hfresh : ∀ d ∈ s.deliveries, d.id ≠ id := Table.find?_eq_none.mp (Table.insert?_eq_some hinsert).1
  refine h.stays rfl (fun k x hx => ⟨fun d hd hid => ?_, rfl⟩) (fun d hd => ?_)
    (fun d hd => ⟨d, (Table.mem_insert? hinsert).mpr (.inl hd), rfl⟩) rfl
  · rcases (Table.mem_insert? hinsert).mp hd with hd | rfl
    · exact .inl hd
    · obtain ⟨e, he, hid'⟩ := h.known k x hx
      exact absurd (hid'.trans hid.symm) (hfresh e he)
  · rcases (Table.mem_insert? hinsert).mp hd with hd | rfl
    · exact (h.rows d hd).congr (Function.update_of_ne (hfresh d hd) _ _) rfl
    · exact ⟨Function.update_self _ _ _, Nat.zero_lt_succ 2, Nat.zero_le 3,
        fun hspent => absurd hspent.2 (Nat.not_succ_le_zero 2)⟩

/-- A delivery put back. -/
theorem Sound.requeued (h : s.Sound config) (id : Uuid) : (s.retryDelivery id).Sound config := by
  have hany : ∀ d ∈ s.deliveries, d.id = id → ((s.deliveries.rows.any fun d => d.id = id && d.status = .failed) = true ↔
    d.status = .failed) := by
    intro d hd hid
    rw [List.any_eq_true]
    constructor
    · rintro ⟨e, he, hfailed⟩
      rw [Bool.and_eq_true, decide_eq_true_eq, decide_eq_true_eq] at hfailed
      obtain rfl := Table.eq_of_key he hd (hfailed.1.trans hid.symm)
      exact hfailed.2
    · exact fun hfailed => ⟨d, hd, by simp [hid, hfailed]⟩
  refine h.stays rfl (fun k x hx => ⟨fun d hd hid => ?_, rfl⟩) (fun d hd => ?_)
    (fun d hd => Table.exists_mem_update (Delivery.requeued_id s.now) hd) rfl
  · obtain ⟨a, ha, rfl⟩ := mem_retryDelivery.mp hd
    split_ifs at hid ⊢ with hfailed
    · -- what has failed is no runner's
      rw [Bool.and_eq_true, decide_eq_true_eq, decide_eq_true_eq] at hfailed
      rcases h.held k x hx a ha hid with ⟨hpending, -⟩ | hskipped
      · rw [hfailed.2] at hpending
        cases hpending
      · rw [hfailed.2] at hskipped
        cases hskipped
    · exact .inl ha
  · obtain ⟨a, ha, rfl⟩ := mem_retryDelivery.mp hd
    have hwithin := h.rows a ha
    split_ifs with hfailed
    · rw [Bool.and_eq_true, decide_eq_true_eq, decide_eq_true_eq] at hfailed
      refine ⟨?_, hwithin.allowed, Nat.zero_le _, fun hspent => absurd hspent.2 (Nat.not_le.mpr hwithin.allowed)⟩
      change (if _ then Function.update s.round id 0 else s.round) a.id = 0
      rw [if_pos ((hany a ha hfailed.1).mpr hfailed.2), hfailed.1, Function.update_self]
    · refine hwithin.congr ?_ rfl
      change (if _ then Function.update s.round id 0 else s.round) a.id = s.round a.id
      split_ifs with hthere
      · rw [Function.update_of_ne]
        intro hid
        exact hfailed (by simp [hid, (hany a ha hid).mp hthere])
      · rfl

theorem Sound.settle (h : s.Sound config) : ((s.settleNotReady config.leaseSeconds).move i .settled).Sound config := by
  refine h.go rfl (fun _ hx => nomatch hx) List.nodup_nil (fun k x hx => ⟨fun d hd hid => ?_, rfl⟩)
    trivial (fun d hd => ?_)
    (fun d hd => Table.exists_mem_update Delivery.settled_id hd) h.reports
  · obtain ⟨a, ha, rfl⟩ := mem_settleNotReady.mp hd
    split
    · exact .inr rfl
    · exact .inl ha
  · obtain ⟨a, ha, rfl⟩ := mem_settleNotReady.mp hd
    have hwithin := h.rows a ha
    split
    · exact ⟨hwithin.counted, hwithin.allowed, hwithin.attempts, fun hspent => nomatch hspent.1⟩
    · exact hwithin.congr rfl rfl

/-- **What is due is claimed**, when no runner has still to report on it. -/
theorem Sound.claim (h : s.Sound config) (hquiet : ∀ d ∈ s.due config locked, Fencing.Quiet s.permits d.id) :
    (s.claimDue config i locked).Sound config := by
  have hround : ∀ d ∈ s.deliveries, (s.claimDue config i locked).round d.id =
      if d ∈ s.due config locked then s.round d.id + 1 else s.round d.id := by
    intro d hd
    change (if _ then _ else _) = _
    simp only [any_due hd]
  have hclaims : ∀ d ∈ s.deliveries, (s.claimDue config i locked).claims d.id =
      if d ∈ s.due config locked then s.claims d.id + 1 else s.claims d.id := by
    intro d hd
    change (if _ then _ else _) = _
    simp only [any_due hd]
  have hrows : ∀ d ∈ (s.claimDue config i locked).deliveries, (∃ a ∈ s.due config locked, d = a.claimed s.now) ∨
      d ∈ s.deliveries ∧ d ∉ s.due config locked := by
    intro d hd
    obtain ⟨a, ha, rfl⟩ := mem_claimDue.mp hd
    split_ifs with hdue
    · exact .inl ⟨a, (any_due ha).mp hdue, rfl⟩
    · exact .inr ⟨ha, mt (any_due ha).mpr hdue⟩
  -- what others have still to report on is not due
  have hstill : ∀ k, ∀ x ∈ s.permits k, s.Still (s.claimDue config i locked) x.1 := by
    intro k x hx
    obtain ⟨e, he, heid⟩ := h.known k x hx
    have hnot : ∀ a ∈ s.due config locked, a.id ≠ x.1 := fun a ha => (hquiet a ha k x hx).symm
    refine ⟨fun d hd hid => ?_, ?_⟩
    · rcases hrows d hd with ⟨a, ha, rfl⟩ | ⟨hd, -⟩
      · exact absurd hid (hnot a ha)
      · exact .inl hd
    · rw [← heid, hclaims e he, if_neg fun hdue => hnot e hdue heid]
  have hpermits : ∀ k, ∀ x ∈ (s.claimDue config i locked).permits k,
      x ∈ s.permits k ∨ ∃ d ∈ s.due config locked, x = (d.id, s.claims d.id + 1) := by
    intro k x hx
    simp only [permits, claimDue, move, Function.update_apply] at hx
    split_ifs at hx
    · obtain ⟨d, hd, rfl⟩ := List.mem_map.mp hx
      exact .inr ⟨d, hd, rfl⟩
    · exact .inl hx
  refine ⟨fun d hd => ?_, ?_, fun k x hx => ?_, fun k x hx => ?_, fun k => ?_, h.reports⟩
  · rcases hrows d hd with ⟨a, ha, rfl⟩ | ⟨hd, hnot⟩
    · have hwithin := h.rows a (mem_due ha).1
      refine ⟨?_, hwithin.allowed, h.not_spent ha, fun _ => leased_claimed _⟩
      rw [Delivery.claimed_id, hround a (mem_due ha).1, if_pos ha, hwithin.counted]
      rfl
    · exact (h.rows d hd).congr (by rw [hround d hd, if_neg hnot]) rfl
  · refine h.exclusive.update (f := Runner.permits) ?_ fun x hx => .inr ?_
    · change ((List.map _ _).map Prod.fst).Nodup
      rw [List.map_map]
      exact nodup_due
    · obtain ⟨d, hd, rfl⟩ := List.mem_map.mp hx
      exact hquiet d hd
  · rcases hpermits k x hx with hx | ⟨d, hd, rfl⟩
    · obtain ⟨d, hd, hid⟩ := h.known k x hx
      obtain ⟨e, he, hid'⟩ := Table.exists_mem_update (Delivery.claimed_id s.now) hd
      exact ⟨e, he, hid'.trans hid⟩
    · exact Table.exists_mem_update (Delivery.claimed_id s.now) (mem_due hd).1
  · rcases hpermits k x hx with hx | ⟨a, ha, rfl⟩
    · exact (h.held k x hx).still (hstill k x hx)
    · intro d hd hid
      rcases hrows d hd with ⟨b, hb, rfl⟩ | ⟨hd, hnot⟩
      · refine .inl ⟨(mem_due hb).2.1, rfl, ?_⟩
        obtain rfl := Table.eq_of_key (mem_due hb).1 (mem_due ha).1 hid
        rw [hclaims b (mem_due hb).1, if_pos hb]
      · obtain rfl := Table.eq_of_key hd (mem_due ha).1 hid
        exact absurd ha hnot
  · by_cases hk : k = i
    · subst hk
      change Fits _ (Function.update s.runners k _ k)
      rw [Function.update_self]
      trivial
    · have hsame : (s.claimDue config i locked).runners k = s.runners k := Function.update_of_ne hk _ _
      rw [hsame]
      exact (h.fits k).still (hstill k)

@[simp] theorem permits_next (jobs : List ClaimedJob) : (Runner.next jobs).permits = jobs.map (·.permit) := by
  cases jobs <;> rfl

theorem fits_next {jobs : List ClaimedJob} (h : ∀ j ∈ jobs, s.Matches j) : s.Fits (.next jobs) := by
  cases jobs with
  | nil => trivial
  | cons j jobs => exact h

theorem mem_jobs {claims : List (Uuid × ℕ)} {j : ClaimedJob} (h : j ∈ s.jobs claims) :
    j.permit ∈ claims ∧ ∃ d ∈ s.deliveries, j.job = .of d := by
  obtain ⟨d, hd, hj⟩ := List.mem_filterMap.mp h
  obtain ⟨claim, hlookup, rfl⟩ := Option.map_eq_some_iff.mp hj
  obtain ⟨l, r, hclaims, -⟩ := List.lookup_eq_some_iff.mp hlookup
  refine ⟨?_, d, (List.mem_filter.mp (Sorting.mem_sortBy.mp hd)).1, rfl⟩
  rw [hclaims]
  exact List.mem_append_right _ List.mem_cons_self

theorem nodup_jobs (claims : List (Uuid × ℕ)) : (((s.jobs claims).map (·.permit)).map Prod.fst).Nodup := by
  rw [List.map_map]
  have hrows : ((Sorting.sortBy Delivery.dueOrder (s.deliveries.rows.filter (·.id ∈ claims.map (·.1)))).map
    (·.id)).Nodup :=
    ((Sorting.sortBy_perm _ _).map _).nodup_iff.mpr (s.deliveries.nodup.sublist (List.filter_sublist.map _))
  refine hrows.sublist (Table.keys_filterMap (fun d j hj => ?_) _)
  obtain ⟨claim, -, rfl⟩ := Option.map_eq_some_iff.mp hj
  rfl

theorem Sound.moves (h : s.Sound config) (hsub : ∀ x ∈ p.permits, x ∈ s.permits i)
    (hnodup : (p.permits.map Prod.fst).Nodup)
    (hfits : s.Fits p) : (s.move i p).Sound config :=
  h.go rfl hsub hnodup (fun _ _ _ => ⟨fun _ hd _ => .inl hd, rfl⟩) (hfits.still fun _ _ => ⟨fun _ hd _ => .inl hd, rfl⟩)
    (fun d hd => (h.rows d hd).congr rfl rfl) (fun d hd => ⟨d, hd, rfl⟩) h.reports

theorem Sound.load (h : s.Sound config) {claims : List (Uuid × ℕ)} (hrunner : s.runners i = .claimed claims) :
    (s.move i (.next (s.jobs claims))).Sound config := by
  refine h.moves (fun x hx => ?_) ?_ (fits_next fun j hj d hd hid _ => ?_)
  · rw [permits_next] at hx
    obtain ⟨j, hj, rfl⟩ := List.mem_map.mp hx
    rw [permits, hrunner]
    exact (mem_jobs hj).1
  · rw [permits_next]
    exact nodup_jobs claims
  · obtain ⟨-, e, he, hof⟩ := mem_jobs hj
    rw [hof] at hid ⊢
    obtain rfl := Table.eq_of_key hd he hid
    exact ⟨rfl, rfl⟩

/-- What is put back has attempts left, when its transport is installed or it is not its last attempt. -/
theorem Sound.send (h : s.Sound config) {j : ClaimedJob} {jobs : List ClaimedJob} {outcome : Option TransportOutcome}
    (hrunner : s.runners i = .sending j jobs) (hintime : s.InTime config (.send i outcome)) :
    (s.move i (.marking j (j.job.mark config s.now outcome) jobs)).Sound config := by
  have hpermits : s.permits i = j.permit :: jobs.map (·.permit) := by rw [permits, hrunner]; rfl
  have hfits := h.fits i
  have hnodup := h.exclusive.1 i
  rw [hrunner] at hfits
  rw [hpermits] at hnodup
  refine h.moves (fun x hx => by rwa [hpermits]) hnodup ⟨fun d hd hid hpending hretry => ?_,
    fun k hk => hfits k (List.mem_cons_of_mem _ hk)⟩
  obtain ⟨hattempts, hmax⟩ := hfits j List.mem_cons_self d hd hid hpending
  rw [hattempts, hmax]
  cases outcome with
  | none => exact hintime j jobs hrunner
  | some outcome => cases outcome with
    | accepted status => cases hretry
    | failed status reason =>
      by_contra hlast
      rw [DeliveryJob.mark, if_neg hlast] at hretry
      cases hretry

/-- **A report is written** by the claim that holds the delivery. -/
theorem Sound.mark (h : s.Sound config) {j : ClaimedJob} {m : Mark} {jobs : List ClaimedJob}
    (hrunner : s.runners i = .marking j m jobs) :
    ((s.report j m).move i (.next jobs)).Sound config := by
  have hpermits : (s.runners i).permits = j.permit :: jobs.map (·.permit) := by rw [hrunner]; rfl
  have hmem : j.permit ∈ s.permits i := by rw [permits, hpermits]; exact List.mem_cons_self
  have hfits := h.fits i
  rw [hrunner] at hfits
  have hquiet : Fencing.Quiet ((s.report j m).move i (.next jobs)).permits j.job.id :=
    h.exclusive.quiet (f := Runner.permits) hpermits fun y hy => by rwa [permits_next] at hy
  have hstill : ∀ {x : Uuid × ℕ}, x.1 ≠ j.job.id → s.Still ((s.report j m).move i (.next jobs)) x.1 := by
    intro x hx
    refine ⟨fun d hd hid => ?_, rfl⟩
    obtain ⟨a, ha, rfl⟩ := mem_report.mp hd
    split_ifs at hid ⊢ with hmarked
    · rw [Bool.and_eq_true, decide_eq_true_eq] at hmarked
      rw [Mark.row_id, hmarked.1] at hid
      exact absurd hid.symm hx
    · exact .inl ha
  have hnodup := h.exclusive.1 i
  rw [permits, hpermits] at hnodup
  refine h.go rfl (fun x hx => ?_) ?_ (fun k x hx => hstill (hquiet k x hx)) (fits_next fun k hk => ?_) (fun d hd => ?_)
    (fun d hd => Table.exists_mem_update (m.row_id s.now) hd) fun r hr => ?_
  · rw [permits_next] at hx
    rw [permits, hpermits]
    exact List.mem_cons_of_mem _ hx
  · rw [permits_next]
    exact (List.nodup_cons.mp hnodup).2
  · have hother : k.job.id ≠ j.job.id := by
      refine fun hid => (List.nodup_cons.mp hnodup).1 ?_
      rw [List.map_map]
      exact List.mem_map.mpr ⟨k, hk, hid⟩
    exact (hfits.2 k hk).still (hstill (x := k.permit) hother)
  · obtain ⟨a, ha, rfl⟩ := mem_report.mp hd
    have hwithin := h.rows a ha
    split_ifs with hmarked
    · rw [Bool.and_eq_true, decide_eq_true_eq, decide_eq_true_eq] at hmarked
      refine ⟨?_, by rw [Mark.row_maxAttempts]; exact hwithin.allowed, by simpa using hwithin.attempts, fun hspent => ?_⟩
      · rw [Mark.row_id, Mark.row_attempts]
        exact hwithin.counted
      · cases m with
        | sent status => cases hspent.1
        | failed status error => cases hspent.1
        | retry status error next => exact absurd hspent.2 (Nat.not_le.mpr (hfits.1 a ha hmarked.1 hmarked.2 rfl))
    · exact hwithin.congr rfl rfl
  · rcases List.mem_append.mp hr with hr | hr
    · exact h.reports r hr
    · obtain ⟨d, hd, rfl⟩ := List.mem_map.mp hr
      obtain ⟨hd, hid, hpending⟩ := mem_pending?.mp (Option.mem_toList.mp hd)
      rcases h.held i j.permit hmem d hd hid with ⟨-, hclaimed, hcurrent⟩ | hskipped
      · have hcurrent' : s.claims j.job.id = j.claim := hcurrent
        change s.holder d = some j.claim
        rw [holder, if_pos hclaimed, hid, hcurrent']
      · rw [hskipped] at hpending
        cases hpending

/-- **A step keeps the invariant** when it is in time. -/
theorem step_sound {e : QueueEvent} (h : s.Sound config) (hintime : s.InTime config e) (hs : s.step config e = some t) :
    t.Sound config := by
  cases e with
  | queue row id notificationId =>
    obtain ⟨deliveries, hinsert, rfl⟩ := Option.map_eq_some_iff.mp hs
    exact h.queued hinsert
  | requeue id =>
    cases hs
    exact h.requeued id
  | configure channels =>
    cases hs
    exact h.stays rfl (fun _ _ _ => ⟨fun _ hd _ => .inl hd, rfl⟩) (fun d hd => (h.rows d hd).congr rfl rfl)
      (fun d hd => ⟨d, hd, rfl⟩) rfl
  | settle i =>
    simp only [step] at hs
    split at hs
    · cases hs
      exact h.settle
    · cases hs
  | claim i locked =>
    simp only [step] at hs
    split at hs
    · cases hs
      exact h.claim hintime
    · cases hs
  | load i =>
    simp only [step] at hs
    split at hs
    · cases hs
      exact h.load ‹_›
    · cases hs
  | send i outcome =>
    simp only [step] at hs
    split at hs
    · cases hs
      exact h.send ‹_› hintime
    · cases hs
  | mark i =>
    simp only [step] at hs
    split at hs
    · cases hs
      exact h.mark ‹_›
    · cases hs
  | crash i =>
    cases hs
    exact h.moves (fun _ hx => nomatch hx) List.nodup_nil trivial
  | tick now =>
    simp only [step] at hs
    split_ifs at hs with hnow
    cases hs
    refine h.stays rfl (fun _ _ _ => ⟨fun _ hd _ => .inl hd, rfl⟩) (fun d hd => ?_) (fun d hd => ⟨d, hd, rfl⟩) rfl
    exact ⟨(h.rows d hd).counted, (h.rows d hd).allowed, (h.rows d hd).attempts, hintime d hd⟩

/-- The queue before anything happens. -/
def start (now : Instant) (organizationOf : Uuid → Option Uuid) : Queue := { now, organizationOf }

theorem sound_start (now : Instant) (organizationOf : Uuid → Option Uuid) :
    (start now organizationOf).Sound config where
  rows := fun _ hd => nomatch hd
  exclusive := ⟨fun _ => List.nodup_nil, fun _ _ _ _ hx => nomatch hx⟩
  known := fun _ _ hx => nomatch hx
  held := fun _ _ hx => nomatch hx
  fits := fun _ => trivial
  reports := fun _ hr => nomatch hr

/-! ### Final outcomes -/

/-- What is sent or failed is so. -/
def Final (s : Queue) : Prop := ∀ x ∈ s.finals, x.2 ≠ .pending ∧ ∃ d ∈ s.deliveries, d.id = x.1 ∧ d.status = x.2

theorem Final.kept (h : s.Final) (hfinals : t.finals = s.finals)
    (hkept : ∀ d ∈ s.deliveries, d.status ≠ .pending → d ∈ t.deliveries) : t.Final := by
  intro x hx
  rw [hfinals] at hx
  obtain ⟨hne, d, hd, hid, hstatus⟩ := h x hx
  exact ⟨hne, d, hkept d hd (hstatus ▸ hne), hid, hstatus⟩

theorem Final.requeued (h : s.Final) (id : Uuid) : (s.retryDelivery id).Final := by
  intro x hx
  have hkept : ∀ d ∈ s.deliveries, ¬(d.id = id ∧ d.status = .failed) → d ∈ (s.retryDelivery id).deliveries := by
    intro d hd hnot
    exact mem_retryDelivery.mpr ⟨d, hd, if_neg (by simpa using hnot)⟩
  simp only [retryDelivery] at hx
  split_ifs at hx with hthere
  · obtain ⟨hx, hother⟩ := List.mem_filter.mp hx
    obtain ⟨hne, d, hd, hid, hstatus⟩ := h x hx
    exact ⟨hne, d, hkept d hd fun hfailed => of_decide_eq_true hother (hid.symm.trans hfailed.1), hid, hstatus⟩
  · obtain ⟨hne, d, hd, hid, hstatus⟩ := h x hx
    refine ⟨hne, d, hkept d hd fun hfailed => hthere (List.any_eq_true.mpr ⟨d, hd, ?_⟩), hid, hstatus⟩
    rw [decide_eq_true hfailed.1, decide_eq_true hfailed.2]
    rfl

theorem Final.reported (h : s.Final) (j : ClaimedJob) (m : Mark) : (s.report j m).Final := by
  intro x hx
  rcases List.mem_append.mp hx with hx | hx
  · obtain ⟨hne, d, hd, hid, hstatus⟩ := h x hx
    refine ⟨hne, d, mem_report.mpr ⟨d, hd, if_neg fun hmarked => hne ?_⟩, hid, hstatus⟩
    rw [Bool.and_eq_true, decide_eq_true_eq, decide_eq_true_eq] at hmarked
    rw [← hstatus, hmarked.2]
  · obtain ⟨d, hd, hx⟩ := List.mem_filterMap.mp hx
    obtain ⟨hd, hid, hpending⟩ := mem_pending?.mp (Option.mem_toList.mp hd)
    have hrow : m.row s.now d ∈ (s.report j m).deliveries := mem_report.mpr ⟨d, hd, if_pos (by simp [hid, hpending])⟩
    cases m with
    | sent status =>
      cases hx
      exact ⟨nofun, _, hrow, rfl, rfl⟩
    | failed status error =>
      cases hx
      exact ⟨nofun, _, hrow, rfl, rfl⟩
    | retry status error next => cases hx

/-- **What is sent or failed stays so**, whatever a runner does. -/
theorem step_final {e : QueueEvent} (h : s.Final) (hs : s.step config e = some t) : t.Final := by
  cases e with
  | queue row id notificationId =>
    obtain ⟨deliveries, hinsert, rfl⟩ := Option.map_eq_some_iff.mp hs
    exact h.kept rfl fun d hd _ => (Table.mem_insert? hinsert).mpr (.inl hd)
  | requeue id =>
    cases hs
    exact h.requeued id
  | configure channels =>
    cases hs
    exact h.kept rfl fun _ hd _ => hd
  | settle i =>
    simp only [step] at hs
    split at hs
    · cases hs
      refine h.kept rfl fun d hd hne => mem_settleNotReady.mpr ⟨d, hd, if_neg fun hready => hne ?_⟩
      simp only [notReady, Bool.and_eq_true, decide_eq_true_eq] at hready
      exact hready.1.1.1
    · cases hs
  | claim i locked =>
    simp only [step] at hs
    split at hs
    · cases hs
      exact h.kept rfl fun d hd hne => mem_claimDue.mpr ⟨d, hd, if_neg fun hdue => hne
        (mem_due ((any_due hd).mp hdue)).2.1⟩
    · cases hs
  | load i =>
    simp only [step] at hs
    split at hs
    · cases hs
      exact h.kept rfl fun _ hd _ => hd
    · cases hs
  | send i outcome =>
    simp only [step] at hs
    split at hs
    · cases hs
      exact h.kept rfl fun _ hd _ => hd
    · cases hs
  | mark i =>
    simp only [step] at hs
    split at hs
    · cases hs
      exact h.reported _ _
    · cases hs
  | crash i =>
    cases hs
    exact h.kept rfl fun _ hd _ => hd
  | tick now =>
    simp only [step] at hs
    split_ifs at hs
    cases hs
    exact h.kept rfl fun _ hd _ => hd

/-! ### Runs -/

theorem run_final {now : Instant} {organizationOf : Uuid → Option Uuid} {ok : Queue → QueueEvent → Prop}
    {events : List QueueEvent}
    (h : Run (step config) ok (start now organizationOf) events t) : t.Final :=
  h.invariant (fun _ hx => nomatch hx) fun _ _ _ hx _ hs => step_final hx hs

/-- **The queue is orderly** in every run in which no runner has still to report on what is
claimed, and the last attempt of a
delivery does not miss its transport and is reported within its lease. -/
theorem run_orderly (config : DeliveryConfig) (now : Instant) (organizationOf : Uuid → Option Uuid)
    (events : List QueueEvent) (t : Queue)
    (h : Run (step config) (InTime config) (start now organizationOf) events t) : t.Orderly := by
  have hsound : t.Sound config := h.invariant (sound_start now organizationOf) fun _ _ _ hx hintime hs =>
    step_sound hx hintime hs
  refine ⟨fun d hd => ?_, fun x hx => (run_final h x hx).2, hsound.reports⟩
  rw [(hsound.rows d hd).counted]
  exact (hsound.rows d hd).attempts

/-! ### One runner -/

/-- The step is this runner's, or nobody's, and its last attempts are in time. -/
def OneInTime (config : DeliveryConfig) (k : ℕ) (s : Queue) (e : QueueEvent) : Prop :=
  (∀ i ∈ e.runner, i = k) ∧ ((∃ i locked, e = .claim i locked) ∨ s.InTime config e)

/-- The others do nothing. -/
theorem run_idle {now : Instant} {organizationOf : Uuid → Option Uuid} {k : ℕ} {events : List QueueEvent}
    (h : Run (step config) (OneInTime config k) (start now organizationOf) events t) : ∀ j, j ≠ k →
      t.runners j = .idle := by
  intro j hj
  refine h.invariant (I := fun s => s.runners j = .idle) rfl fun s e s' hidle hok hs => ?_
  have hmove : ∀ {i : ℕ} {p : Runner}, i = k → Function.update s.runners i p j = .idle := fun hi => by
    rw [Function.update_of_ne (hi ▸ hj), hidle]
  cases e with
  | queue row id notificationId =>
    obtain ⟨deliveries, -, rfl⟩ := Option.map_eq_some_iff.mp hs
    exact hidle
  | requeue id => exact Option.some.inj hs ▸ hidle
  | configure channels => exact Option.some.inj hs ▸ hidle
  | tick now =>
    simp only [step] at hs
    split_ifs at hs
    exact Option.some.inj hs ▸ hidle
  | crash i => exact Option.some.inj hs ▸ hmove (hok.1 i rfl)
  | settle i | claim i locked | load i | send i outcome | mark i =>
    simp only [step] at hs
    split at hs
    · exact Option.some.inj hs ▸ hmove (hok.1 i rfl)
    · cases hs

/-- **One runner alone** has nothing to report when it claims. -/
theorem run_inTime_of_one {now : Instant} {organizationOf : Uuid → Option Uuid} {k : ℕ} {events : List QueueEvent}
    (h : Run (step config) (OneInTime config k) (start now organizationOf) events t) :
    Run (step config) (InTime config) (start now organizationOf) events t := by
  refine h.mono_of run_idle fun s e s' hidle hok hs => ?_
  rcases hok.2 with ⟨i, locked, rfl⟩ | hintime
  · intro d _ j x hx
    simp only [step] at hs
    split at hs
    · rename_i hsettled
      obtain rfl := hok.1 i rfl
      by_cases hj : j = i
      · rw [permits, hj, hsettled] at hx
        cases hx
      · rw [permits, hidle j hj] at hx
        cases hx
    · cases hs
  · exact hintime

/-! ### Some runs -/

/-- A runner claims what is due. -/
def claiming (i : ℕ) : List QueueEvent := [.settle i, .claim i []]

/-- It tries and reports. -/
def trying (i : ℕ) (outcome : TransportOutcome) : List QueueEvent :=
    claiming i ++ [.load i, .send i (some outcome), .mark i]

/-- It claims and crashes, and its lease runs out. -/
def crashing (i : ℕ) (now : Instant) : List QueueEvent := claiming i ++ [.crash i, .tick now]

/-- The row of the panel of notification 9. -/
def queued : QueueEvent := .queue inAppRow 1 9

/-- Everything is runner 0's, no attempts are used up, and no transport is missing. -/
def leftCheck (s : Queue) (e : QueueEvent) : Bool :=
  e.runner.all (· = 0) && s.deliveries.rows.all (fun d => d.attempts < d.maxAttempts) && e.isSent

theorem oneInTime_of_leftCheck (config : DeliveryConfig) (s : Queue) (e : QueueEvent) (h : leftCheck s e = true) :
    s.OneInTime config 0 e := by
  rw [leftCheck, Bool.and_eq_true, Bool.and_eq_true, List.all_eq_true] at h
  obtain ⟨⟨hrunner, hleft⟩, hsend⟩ := h
  refine ⟨fun i hi => by simpa [Option.mem_def.mp hi] using hrunner, ?_⟩
  cases e with
  | claim i locked => exact .inl ⟨i, locked, rfl⟩
  | send i outcome => cases outcome with
    | none => simp [QueueEvent.isSent] at hsend
    | some outcome => exact .inr trivial
  | tick now => exact .inr fun d hd hspent => absurd hspent.2 (Nat.not_le.mpr (of_decide_eq_true (hleft d hd)))
  | _ => exact .inr trivial

/-- A first attempt fails, and a second is accepted. -/
theorem run_orderly_retried : ∃ t, Run (step {}) Any (start 0 fun _ => none)
    (queued :: trying 0 (.failed (some 503) "unavailable") ++ [.tick 60000000] ++ trying 0 (.accepted (some 200))) t ∧
    t.deliveries.rows.map (fun d => (d.status, d.attempts)) = [(.sent, 2)] ∧ t.Orderly := by
  have hexec : (exec (fun s e => if leftCheck s e then step {} s e else none) (start 0 fun _ => none)
      (queued :: trying 0 (.failed (some 503) "unavailable") ++ [.tick 60000000] ++
        trying 0 (.accepted (some 200)))).map
      (fun t => t.deliveries.rows.map fun d => (d.status, d.attempts)) = some [(.sent, 2)] := by decide +kernel
  obtain ⟨t, hrun, hrows⟩ := Run.of_exec_of_map (oneInTime_of_leftCheck {}) hexec
  exact ⟨t, hrun.mono fun _ _ _ => trivial, hrows, run_orderly {} 0 (fun _ => none) _ t (run_inTime_of_one hrun)⟩

/-- **A fourth attempt of three**: every runner crashes. -/
theorem fourth_attempt : ∃ t, Run (step {}) Any (start 0 fun _ => none)
    (queued :: crashing 0 60000000 ++ crashing 1 120000000 ++ crashing 2 180000000 ++ claiming 3) t ∧ ¬ t.Orderly := by
  have hexec : (exec (step {}) (start 0 fun _ => none)
      (queued :: crashing 0 60000000 ++ crashing 1 120000000 ++ crashing 2 180000000 ++ claiming 3)).map
      (fun t => t.deliveries.rows.map fun d => (t.round d.id, d.maxAttempts)) = some [(4, 3)] := by decide +kernel
  obtain ⟨t, hrun, hrows⟩ := Run.of_exec_map hexec
  refine ⟨t, hrun, fun horderly => ?_⟩
  obtain ⟨d, hd, hrow⟩ := List.mem_map.mp (hrows ▸ List.mem_singleton_self (4, 3))
  obtain ⟨hround, hmax⟩ := Prod.mk.inj hrow
  have hbound := horderly.attempts d hd
  rw [hround, hmax] at hbound
  exact absurd hbound (by decide)

end Queue

end Omnion.Notifications
