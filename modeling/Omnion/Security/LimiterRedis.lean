import Omnion.Core.JsonText
import Omnion.Library.Counters
import Omnion.Library.Run
import Omnion.Security.Limiter

/-!
# The counter behind the limiter

`count` and `enforce` of `crates/security/src/limiter_redis.rs`: requests counted per scope,
client and window, in a store that all processes share.

## The model

A call touches the store once, in its script, so the order of the calls is the order of their
scripts. The clock a call was started by and the clock of the store are apart: the first, in
seconds, names the window, by the second, in milliseconds, a counter expires.

## What is proved

* `enforce_fair` — while a scope is enforced, no more than limit and burst of a client's
  requests are admitted in a window, whatever the order; the count is the client's own; a
  refused client that waits as told is in a later window.
* `admitted_over_the_limit` — a scope that is switched off, a public scope asked by an
  authenticated client, and a counter that expired before it was asked again.

## Honest scope

A counter does not overflow. That hashes of the clients are different is assumed.
-/

namespace Omnion.Security.Limiter

open Transition

/-- `RETENTION_SLACK_SECONDS`. -/
def retentionSlackSeconds : ℤ := 60

/-- How long a counter lives, in seconds. -/
def ttl (policy : RatePolicy) : ℤ := wrapI64 (max policy.windowSeconds 1 + retentionSlackSeconds)

/-- A counter's reading for one window. -/
structure Counted where
  count : ℤ
  /-- Whether the counter could be read. -/
  authoritative : Bool

/-- One call of `enforce`. -/
structure Call where
  scope : String
  client : ClientId
  /-- The caller's clock, in seconds. -/
  now : ℤ
  /-- The store's clock when the script runs, in milliseconds; `none` when the store cannot be
  reached. -/
  reached : Option ℤ

/-- What a call answers. -/
abbrev Answer := Except String (Verdict × Counted)

/-- Increment the counter for a policy. -/
def count (policy : RatePolicy) (client : ClientId) (now : ℤ) (store : Counters.Store String) (reached : ℤ) :
    ℕ × Counters.Store String :=
  Counters.increment store (policy.counterKey client now) (ttl policy * 1000) reached

/-- Decide by a reading of the counter. -/
def answerFor (policies : List RatePolicy) (call : Call) (counted : Counted) : Answer :=
  (decide policies call.scope call.client counted.count call.now).map fun verdict => (verdict, counted)

/-- Count a request and return the verdict. -/
def enforce (policies : List RatePolicy) (store : Counters.Store String) (call : Call) :
    Answer × Counters.Store String :=
  match policyFor policies call.scope with
  | none => (.error (missingPolicy call.scope), store)
  | some policy =>
    -- A switched-off scope is not counted.
    if !policy.enabled then (answerFor policies call { count := 0, authoritative := true }, store)
    else
      match call.reached with
      | none => (answerFor policies call { count := 0, authoritative := false }, store)
      | some reached =>
        let (count, store) := count policy call.client call.now store reached
        (answerFor policies call { count, authoritative := true }, store)

/-- The store, and the calls answered so far. -/
structure Served where
  store : Counters.Store String := fun _ => none
  /-- The calls and their answers, in order. -/
  answers : List (Call × Answer) := []

/-- One more call. -/
def serve (policies : List RatePolicy) (served : Served) (call : Call) : Option Served :=
  let (answer, store) := enforce policies served.store call
  some { store, answers := served.answers ++ [(call, answer)] }

theorem serve_eq (policies : List RatePolicy) (served : Served) (call : Call) : serve policies served call = some {
    store := (enforce policies served.store call).2
    answers := served.answers ++ [(call, (enforce policies served.store call).1)] } := rfl

/-- The call was let through. -/
def admitted : Answer → Bool
  | .ok (verdict, _) => !verdict.limited
  | .error _ => false

/-- The call is one of a client, in one window. -/
def Call.isOf (policy : RatePolicy) (identity : String) (bucket : ℤ) (call : Call) : Bool :=
  call.scope = policy.scope && policy.counterIdentity call.client = identity && policy.bucket call.now = bucket

/-- The scope counts the client: the public one does not count an authenticated client. -/
def Call.isCounted (call : Call) : Bool := !(call.scope = "public_api" && call.client.userId.isSome)

/-- How many calls a client has made in a window. -/
def made (policy : RatePolicy) (identity : String) (bucket : ℤ) (answers : List (Call × Answer)) : ℕ :=
  answers.countP fun (call, _) => call.isOf policy identity bucket

/-- How many of a client's requests were admitted in a window. -/
def admittedOf (policy : RatePolicy) (identity : String) (bucket : ℤ) (answers : List (Call × Answer)) : ℕ :=
  answers.countP fun (call, answer) => call.isOf policy identity bucket && admitted answer

/-- As `admittedOf`, of the requests the scope counts. -/
def countedOf (policy : RatePolicy) (identity : String) (bucket : ℤ) (answers : List (Call × Answer)) : ℕ :=
  answers.countP fun (call, answer) => call.isOf policy identity bucket && call.isCounted && admitted answer

/-! ### Keys -/

/-- The key of a scope's counter for a client and a window. -/
def keyFor (scope : String) (bucket : ℤ) (identity : String) : String :=
  s!"omnion:rl:{scope}:{bucket}:{shortHash identity}"

theorem counterKey_eq (policy : RatePolicy) (client : ClientId) (now : ℤ) :
    policy.counterKey client now = keyFor policy.scope (policy.bucket now) (policy.counterIdentity client) := rfl

theorem length_shortHash (value : String) : (shortHash value).toList.length = 16 := by
  have hlength : ∀ hash : UInt64, (Text.hex hash.toNat).toList.length ≤ 16 := by
    intro hash
    rw [Text.hex, String.toList_ofList, Nat.length_toDigits_le_iff (by decide) (by decide)]
    exact hash.toNat_lt
  simp only [shortHash, String.toList_ofList, List.length_append, List.length_replicate]
  exact Nat.sub_add_cancel (hlength _)

theorem split_last {α : Type*} {mark : α} {xs xs' ys ys' : List α} (hys : mark ∉ ys) (hys' : mark ∉ ys')
    (h : xs ++ mark :: ys = xs' ++ mark :: ys') : xs = xs' ∧ ys = ys' := by
  rcases List.append_eq_append_iff.mp h with ⟨as, rfl, hmark⟩ | ⟨as, rfl, hmark⟩
  · cases as with
    | nil => exact ⟨(List.append_nil xs).symm, (List.cons.inj hmark).2⟩
    | cons a as =>
      have hin : mark ∈ as ++ mark :: ys' := by simp
      exact absurd ((List.cons.inj hmark).2 ▸ hin) hys
  · cases as with
    | nil => exact ⟨List.append_nil xs', (List.cons.inj hmark).2.symm⟩
    | cons a as =>
      have hin : mark ∈ as ++ mark :: ys := by simp
      exact absurd ((List.cons.inj hmark).2 ▸ hin) hys'

theorem colon_notMem_int (n : ℤ) : ':' ∉ JsonText.int n := fun h => by
  rcases JsonText.isNumeral_int n ':' h with hdigit | hsign
  · exact absurd hdigit (by decide)
  · exact absurd hsign (by decide)

/-- **The key tells its parts apart.** -/
theorem keyFor_inj {scope scope' identity identity' : String} {bucket bucket' : ℤ}
    (h : keyFor scope bucket identity = keyFor scope' bucket' identity') :
    scope = scope' ∧ bucket = bucket' ∧ shortHash identity = shortHash identity' := by
  have hlist : ∀ (scope identity : String) (bucket : ℤ), (keyFor scope bucket identity).toList =
      "omnion:rl:".toList ++ scope.toList ++ ':' :: JsonText.int bucket ++ ':' :: (shortHash identity).toList := by
    intro scope identity bucket
    have htext : keyFor scope bucket identity =
        "omnion:rl:" ++ scope ++ ":" ++ toString bucket ++ ":" ++ shortHash identity := rfl
    have hcolon : ":".toList = [':'] := rfl
    rw [htext]
    simp only [String.toList_append, JsonText.toList_toString, hcolon, List.append_assoc,
      List.cons_append, List.nil_append]
  have hkeys := congrArg String.toList h
  rw [hlist, hlist] at hkeys
  -- From the right: the hash has its length, and the number no colon.
  obtain ⟨hrest, hhash⟩ := List.append_inj' hkeys (by simp [length_shortHash])
  obtain ⟨hscope, hbucket⟩ := split_last (colon_notMem_int bucket) (colon_notMem_int bucket') hrest
  refine ⟨?_, ?_, ?_⟩
  · exact String.toList_inj.mp (List.append_cancel_left hscope)
  · exact JsonText.int_injective hbucket
  · exact String.toList_inj.mp (List.cons.inj hhash).2

/-! ### Windows -/

/-- When a window begins, in seconds. -/
def windowStart (policy : RatePolicy) (bucket : ℤ) : ℤ := bucket * max policy.windowSeconds 1

/-- Until when the store keeps a window's counters at least, in milliseconds. -/
def deadline (policy : RatePolicy) (bucket : ℤ) : ℤ :=
  (windowStart policy (bucket + 1) + retentionSlackSeconds) * 1000

section Window

variable {policy : RatePolicy} (h : policy.InRange)

include h

theorem ttl_eq : ttl policy = max policy.windowSeconds 1 + retentionSlackSeconds := by
  have hwindow := h.window
  simp only [maxWindowSeconds] at hwindow
  refine wrapI64_eq ?_
  simp only [FitsI64, retentionSlackSeconds]
  omega

theorem deadline_le {bucket reached : ℤ} (hreached : windowStart policy bucket * 1000 ≤ reached) :
    deadline policy bucket ≤ reached + ttl policy * 1000 := by
  have hnext : windowStart policy (bucket + 1) = windowStart policy bucket + max policy.windowSeconds 1 := by
    rw [windowStart, windowStart, Int.add_mul, Int.one_mul]
  rw [deadline, hnext, ttl_eq h]
  omega

/-- **A client that waits as told is in a later window.** -/
theorem bucket_lt_after (now : ℤ) : policy.bucket now < policy.bucket (now + policy.remaining now) := by
  have hwindow := h.window.1
  have helapsed := elapsed_range h now
  have hremaining : policy.remaining now = policy.windowSeconds - policy.elapsed now := by
    rw [RatePolicy.remaining, wrapI64_eq (fits_remaining h now)]
    omega
  have hnext : now + policy.remaining now = (policy.bucket now + 1) * policy.windowSeconds := by
    have hsplit := Int.mul_ediv_add_emod now policy.windowSeconds
    rw [hremaining, RatePolicy.elapsed, RatePolicy.bucket, Int.max_eq_left hwindow, Int.add_mul, Int.one_mul,
      Int.mul_comm (now / policy.windowSeconds)]
    omega
  have hlater : policy.bucket (now + policy.remaining now) = policy.bucket now + 1 := by
    rw [hnext]
    nth_rewrite 1 [RatePolicy.bucket]
    rw [Int.max_eq_left hwindow]
    exact Int.mul_ediv_cancel _ (by omega)
  omega

end Window

/-! ### Answers -/

section Answers

variable {policies : List RatePolicy} {policy : RatePolicy} {call : Call} {counted : Counted}
variable (hpolicy : policyFor policies call.scope = some policy)

include hpolicy

theorem answerFor_eq : answerFor policies call counted =
    .ok (judge policy call.scope call.client counted.count call.now, counted) := by
  rw [answerFor, decide, hpolicy]
  rfl

theorem count_le_of_admitted (henabled : policy.enabled = true) (hcounted : call.isCounted = true)
    (hadmitted : admitted (answerFor policies call counted) = true) : counted.count ≤ policy.ceiling := by
  rw [answerFor_eq hpolicy, admitted, judge] at hadmitted
  have hpublic : ¬ (policy.scope = "public_api" ∧ call.client.userId.isSome = true) := by
    rw [scope_of_policyFor hpolicy]
    simpa [Call.isCounted, imp_iff_not_or] using hcounted
  rw [if_neg (by simp [henabled]), if_neg hpublic] at hadmitted
  split_ifs at hadmitted with hadmits
  · simpa [RatePolicy.admits, RatePolicy.ceiling] using hadmits
  · cases hadmitted

end Answers

theorem retryAfter_of_limited {policy : RatePolicy} {scope : String} {client : ClientId} {count now : ℤ}
    (h : (judge policy scope client count now).limited = true) :
    (judge policy scope client count now).retryAfter = some (policy.remaining now) := by
  rw [judge] at h ⊢
  split_ifs at h ⊢
  rfl

/-- The policy of a scope that is switched on. -/
structure Enforced (policies : List RatePolicy) (policy : RatePolicy) : Prop where
  inForce : policyFor policies policy.scope = some policy
  enabled : policy.enabled = true

/-- The store is reached in the window of the call, or at most the slack after it. -/
def InTime (policy : RatePolicy) (call : Call) : Prop :=
  ∃ reached, call.reached = some reached ∧ windowStart policy (policy.bucket call.now) * 1000 ≤ reached ∧
    reached ≤ deadline policy (policy.bucket call.now)

/-- A call of one of the clients, that reaches the store in time. -/
structure Orderly (policies : List RatePolicy) (clients : Set String) (served : Served) (call : Call) : Prop where
  client : ∀ policy, policyFor policies call.scope = some policy → policy.counterIdentity call.client ∈ clients
  inTime : ∀ policy, policyFor policies call.scope = some policy → InTime policy call

/-- **Fairness** of the calls of a run and their answers. -/
structure Fair (policies : List RatePolicy) (answers : List (Call × Answer)) : Prop where
  /-- No more than limit and burst are admitted. -/
  bounded : ∀ policy, Enforced policies policy → ∀ identity bucket,
    (countedOf policy identity bucket answers : ℤ) ≤ policy.limit + policy.burst
  /-- A call is decided by the number of its own client's calls. -/
  own : ∀ i call answer, answers[i]? = some (call, answer) → ∀ policy, Enforced policies policy →
    call.scope = policy.scope →
    let count := made policy (policy.counterIdentity call.client) (policy.bucket call.now) (answers.take (i + 1))
    answer = answerFor policies call { count, authoritative := true }
  /-- The wait ends in a later window. -/
  waits : ∀ call verdict counted, (call, .ok (verdict, counted)) ∈ answers → verdict.limited = true →
    ∃ policy seconds, policyFor policies call.scope = some policy ∧ verdict.retryAfter = some seconds ∧
      policy.bucket call.now < policy.bucket (call.now + seconds)

/-! ### One more call -/

section Step

variable {policies : List RatePolicy} {call : Call} {answer : Answer} {answers : List (Call × Answer)}

theorem isOf_iff {policy : RatePolicy} {identity : String} {bucket : ℤ} :
    call.isOf policy identity bucket = true ↔
      call.scope = policy.scope ∧ policy.counterIdentity call.client = identity ∧ policy.bucket call.now = bucket := by
  simp [Call.isOf, and_assoc]

theorem made_append (policy : RatePolicy) (identity : String) (bucket : ℤ) :
    made policy identity bucket (answers ++ [(call, answer)]) =
      made policy identity bucket answers + if call.isOf policy identity bucket then 1 else 0 := by
  simp [made, List.countP_append, List.countP_singleton]

theorem countedOf_append (policy : RatePolicy) (identity : String) (bucket : ℤ) :
    countedOf policy identity bucket (answers ++ [(call, answer)]) =
      countedOf policy identity bucket answers +
        if call.isOf policy identity bucket && call.isCounted && admitted answer then 1 else 0 := by
  simp only [countedOf, List.countP_append, List.countP_singleton]

theorem countedOf_le_made (policy : RatePolicy) (identity : String) (bucket : ℤ) (answers : List (Call × Answer)) :
    countedOf policy identity bucket answers ≤ made policy identity bucket answers := by
  refine List.countP_mono_left fun (call, answer) _ h => ?_
  simp only [Bool.and_eq_true] at h
  exact h.1.1

theorem verdict_of_enforce {store : Counters.Store String} {verdict : Verdict} {counted : Counted}
    (h : (enforce policies store call).1 = .ok (verdict, counted)) :
    ∃ policy, policyFor policies call.scope = some policy ∧
      verdict = judge policy call.scope call.client counted.count call.now := by
  rw [enforce] at h
  cases hpolicy : policyFor policies call.scope with
  | none =>
    rw [hpolicy] at h
    cases h
  | some policy =>
    rw [hpolicy] at h
    have hanswer : ∃ counted', answerFor policies call counted' = .ok (verdict, counted) := by
      simp only at h
      split_ifs at h
      · exact ⟨_, h⟩
      · split at h
        · exact ⟨_, h⟩
        · exact ⟨_, h⟩
    obtain ⟨counted', hanswer⟩ := hanswer
    rw [answerFor_eq hpolicy] at hanswer
    cases hanswer
    exact ⟨policy, rfl, rfl⟩

theorem enforce_of_enforced {policy : RatePolicy} {store : Counters.Store String} {reached : ℤ}
    (hpolicy : Enforced policies policy) (hscope : call.scope = policy.scope) (hreached : call.reached = some reached) :
    enforce policies store call =
      (answerFor policies call {
        count := (count policy call.client call.now store reached).1
        authoritative := true },
      (count policy call.client call.now store reached).2) := by
  rw [enforce, hscope, hpolicy.inForce]
  simp [hpolicy.enabled, hreached]

theorem enforce_of_not_enforced {store : Counters.Store String}
    (h : ∀ policy, Enforced policies policy → call.scope ≠ policy.scope) : (enforce policies store call).2 = store := by
  rw [enforce]
  cases hpolicy : policyFor policies call.scope with
  | none => rfl
  | some policy =>
    have hscope := scope_of_policyFor hpolicy
    have hdisabled : policy.enabled = false := by
      by_contra henabled
      exact h policy ⟨by rwa [hscope], by simpa using henabled⟩ hscope.symm
    simp [hdisabled]

/-- An answer by the count of the client's own calls keeps the run fair. -/
theorem Fair.append (h : Fair policies answers) (hrange : ∀ policy ∈ policies, policy.InRange)
    (hown : ∀ policy, Enforced policies policy → call.scope = policy.scope →
      answer = answerFor policies call {
        count := made policy (policy.counterIdentity call.client) (policy.bucket call.now) answers + 1
        authoritative := true })
    (hverdict : ∀ verdict counted, answer = .ok (verdict, counted) → ∃ policy,
      policyFor policies call.scope = some policy ∧
        verdict = judge policy call.scope call.client counted.count call.now) :
    Fair policies (answers ++ [(call, answer)]) where
  bounded := by
    intro policy hpolicy identity bucket
    have hbefore := h.bounded policy hpolicy identity bucket
    rw [countedOf_append]
    split_ifs with hnew
    · simp only [Bool.and_eq_true] at hnew
      obtain ⟨⟨hof, hcounted⟩, hadmitted⟩ := hnew
      obtain ⟨hscope, rfl, rfl⟩ := isOf_iff.mp hof
      rw [hown policy hpolicy hscope] at hadmitted
      have hinForce : policyFor policies call.scope = some policy := hscope ▸ hpolicy.inForce
      have hcount := count_le_of_admitted hinForce hpolicy.enabled hcounted hadmitted
      have hmade := countedOf_le_made policy (policy.counterIdentity call.client) (policy.bucket call.now) answers
      rw [ceiling_eq (hrange policy (List.mem_of_find?_eq_some hpolicy.inForce))] at hcount
      simp only at hcount
      push_cast
      omega
    · exact hbefore
  own := by
    intro i other answer' hi policy hpolicy hscope
    rcases Nat.lt_trichotomy i answers.length with hlt | rfl | hgt
    · rw [List.getElem?_append_left hlt] at hi
      rw [List.take_append_of_le_length hlt]
      exact h.own i other answer' hi policy hpolicy hscope
    · rw [List.getElem?_concat_length] at hi
      cases hi
      rw [List.take_of_length_le (by simp), made_append, if_pos (isOf_iff.mpr ⟨hscope, rfl, rfl⟩)]
      exact hown policy hpolicy hscope
    · have hpast : (answers ++ [(call, answer)]).length ≤ i := by rwa [List.length_append]
      rw [List.getElem?_eq_none hpast] at hi
      cases hi
  waits := by
    intro other verdict counted hmem hlimited
    rcases List.mem_append.mp hmem with hold | hnew
    · exact h.waits other verdict counted hold hlimited
    · obtain ⟨rfl, hanswer⟩ := Prod.mk.inj (List.mem_singleton.mp hnew)
      obtain ⟨policy, hpolicy, rfl⟩ := hverdict verdict counted hanswer.symm
      refine ⟨policy, policy.remaining other.now, hpolicy, retryAfter_of_limited hlimited, ?_⟩
      exact bucket_lt_after (hrange policy (List.mem_of_find?_eq_some hpolicy)) other.now

end Step

/-- Every counter stands at the number of its client's calls, and the answers are fair. -/
structure Inv (policies : List RatePolicy) (clients : Set String) (served : Served) : Prop where
  stands : ∀ policy, Enforced policies policy → ∀ identity ∈ clients, ∀ bucket,
    Counters.Stands served.store (keyFor policy.scope bucket identity) (deadline policy bucket)
      (made policy identity bucket served.answers)
  fair : Fair policies served.answers

theorem inv_nothing {policies : List RatePolicy} (hrange : ∀ policy ∈ policies, policy.InRange)
    (clients : Set String) : Inv policies clients {} where
  stands := fun _ _ _ _ _ => .absent rfl
  fair := {
    bounded := by
      intro policy hpolicy identity bucket
      have hpolicyRange := hrange policy (List.mem_of_find?_eq_some hpolicy.inForce)
      have hlimit := hpolicyRange.limit.1
      have hburst := hpolicyRange.burst.1
      simp only [minLimit] at hlimit
      simp only [countedOf, List.countP_nil]
      omega
    own := fun _ _ _ hi => by cases hi
    waits := fun _ _ _ hmem => by cases hmem }

/-- **One call** keeps the counters, and the run fair. -/
theorem Inv.serve {policies : List RatePolicy} {clients : Set String} {served served' : Served} {call : Call}
    (h : Inv policies clients served) (hrange : ∀ policy ∈ policies, policy.InRange)
    (hhash : Set.InjOn shortHash clients) (horderly : Orderly policies clients served call)
    (hserve : serve policies served call = some served') : Inv policies clients served' := by
  rw [serve_eq] at hserve
  cases hserve
  by_cases henforced : ∃ policy, Enforced policies policy ∧ call.scope = policy.scope
  · obtain ⟨policy, hpolicy, hscope⟩ := henforced
    have hinForce : policyFor policies call.scope = some policy := hscope ▸ hpolicy.inForce
    have hclient := horderly.client policy hinForce
    obtain ⟨reached, hreached, hfrom, hto⟩ := horderly.inTime policy hinForce
    have hpolicyRange := hrange policy (List.mem_of_find?_eq_some hpolicy.inForce)
    -- The call's own counter stands at one more.
    obtain ⟨hcount, hstands⟩ := (h.stands policy hpolicy _ hclient (policy.bucket call.now)).increment hto
      (deadline_le hpolicyRange hfrom)
    have hsame : ∀ other, Enforced policies other → call.scope = other.scope → other = policy := by
      intro other hother hotherScope
      have hotherForce : policyFor policies call.scope = some other := hotherScope ▸ hother.inForce
      exact Option.some.inj (hotherForce.symm.trans hinForce)
    have henforce : enforce policies served.store call = _ := enforce_of_enforced hpolicy hscope hreached
    refine ⟨?_, h.fair.append hrange ?_ fun verdict counted => verdict_of_enforce⟩
    · intro other hother identity hidentity bucket
      rw [made_append, henforce]
      split_ifs with hof
      · obtain ⟨hotherScope, rfl, rfl⟩ := isOf_iff.mp hof
        obtain rfl := hsame other hother hotherScope
        exact hstands
      · refine (h.stands other hother identity hidentity bucket).increment_of_ne fun hkey => hof ?_
        obtain ⟨hotherScope, rfl, hidentities⟩ := keyFor_inj hkey
        obtain rfl := hsame other hother (hscope.trans hotherScope.symm)
        exact isOf_iff.mpr ⟨hscope, (hhash hidentity hclient hidentities).symm, rfl⟩
    · intro other hother hotherScope
      obtain rfl := hsame other hother hotherScope
      rw [henforce, count, counterKey_eq, hcount]
      rfl
  · have hnot : ∀ policy, Enforced policies policy → call.scope ≠ policy.scope :=
      fun policy hpolicy hscope => henforced ⟨policy, hpolicy, hscope⟩
    refine ⟨?_, h.fair.append hrange (fun policy hpolicy hscope => absurd hscope (hnot policy hpolicy))
      fun verdict counted => verdict_of_enforce⟩
    intro policy hpolicy identity hidentity bucket
    rw [made_append, if_neg (fun hof => hnot policy hpolicy (isOf_iff.mp hof).1), enforce_of_not_enforced hnot]
    exact h.stands policy hpolicy identity hidentity bucket

/-- **In every order of the calls**, under policies in range and hashes that are different for
different clients, the calls are answered fairly. -/
theorem enforce_fair {policies : List RatePolicy} (hrange : ∀ policy ∈ policies, policy.InRange)
    {clients : Set String} (hhash : Set.InjOn shortHash clients) {calls : List Call} {served : Served}
    (h : Run (serve policies) (Orderly policies clients) {} calls served) : Fair policies served.answers :=
  (h.invariant (I := Inv policies clients) (inv_nothing hrange clients) fun _ _ _ hinv horderly hserve =>
    hinv.serve hrange hhash horderly hserve).fair

/-- One sign-in a minute. -/
def oneSignIn : RatePolicy := { scope := "sign_in", windowSeconds := 60, limit := 1, burst := 0, enabled := true }

/-- A client without a name or an address. -/
def anonymous : ClientId := { userId := none, ip := none }

theorem inRange_oneSignIn : ∀ policy ∈ [oneSignIn], policy.InRange := by
  intro policy hpolicy
  rw [List.mem_singleton.mp hpolicy]
  exact ⟨by decide, by decide, by decide⟩

theorem orderly_oneSignIn (served : Served) (now reached : ℤ)
    (hfrom : now / 60 * 60 * 1000 ≤ reached) (hto : reached ≤ ((now / 60 + 1) * 60 + 60) * 1000) :
    Orderly [oneSignIn] {"anon"} served { scope := "sign_in", client := anonymous, now, reached := some reached } := by
  have hpolicy : policyFor [oneSignIn] "sign_in" = some oneSignIn := rfl
  constructor
  · intro policy h
    obtain rfl := Option.some.inj (hpolicy.symm.trans h)
    rfl
  · intro policy h
    obtain rfl := Option.some.inj (hpolicy.symm.trans h)
    exact ⟨reached, rfl, hfrom, hto⟩

theorem two_sign_ins_fair : ∃ served, Run (serve [oneSignIn]) (Orderly [oneSignIn] {"anon"}) {}
    [⟨"sign_in", anonymous, 59, some 59999⟩, ⟨"sign_in", anonymous, 59, some 119000⟩] served ∧
      Fair [oneSignIn] served.answers := by
  have hnone : Run (serve [oneSignIn]) (Orderly [oneSignIn] {"anon"}) {} [] {} := .nil
  have hone := hnone.snoc (orderly_oneSignIn _ 59 59999 (by decide) (by decide)) (serve_eq _ _ _)
  have htwo := hone.snoc (orderly_oneSignIn _ 59 119000 (by decide) (by decide)) (serve_eq _ _ _)
  exact ⟨_, htwo, enforce_fair inRange_oneSignIn (Set.injOn_singleton _ _) htwo⟩

/-- The store is available. -/
def Available (_ : Served) (call : Call) : Prop := call.reached.isSome = true

/-- More of a client's requests were admitted than limit and burst. -/
def OverLimit (policy : RatePolicy) (identity : String) (calls : List Call) : Prop :=
  ∃ served, Run (serve [policy]) Available {} calls served ∧
    ∃ bucket, policy.limit + policy.burst < admittedOf policy identity bucket served.answers

theorem overLimit_of_exec {policy : RatePolicy} {identity : String} {calls : List Call} (bucket : ℤ) (n : ℕ)
    (h : (exec (fun served call => if call.reached.isSome then serve [policy] served call else none) {} calls).map
      (fun served => admittedOf policy identity bucket served.answers) = some n)
    (hn : policy.limit + policy.burst < n) : OverLimit policy identity calls := by
  have hrun : ∃ served, Run (serve [policy]) Available {} calls served ∧
      admittedOf policy identity bucket served.answers = n :=
    Run.of_exec_of_map (p := fun (_ : Served) (call : Call) => call.reached.isSome) (fun _ _ h => h) h
  obtain ⟨served, hrun, rfl⟩ := hrun
  exact ⟨served, hrun, bucket, hn⟩

/-- **Who is admitted over the limit**: everybody while the scope is switched off, an
authenticated client of the public scope, and who is counted after the counter expired. -/
theorem admitted_over_the_limit :
    OverLimit { oneSignIn with enabled := false } "anon"
        [⟨"sign_in", anonymous, 0, some 0⟩, ⟨"sign_in", anonymous, 0, some 1⟩] ∧
      OverLimit { oneSignIn with scope := "public_api" } "user:a"
        [⟨"public_api", ⟨some "a", none⟩, 0, some 0⟩, ⟨"public_api", ⟨some "a", none⟩, 0, some 1⟩] ∧
      OverLimit oneSignIn "anon"
        [⟨"sign_in", anonymous, 0, some 0⟩, ⟨"sign_in", anonymous, 0, some 120001⟩] :=
  ⟨overLimit_of_exec 0 2 rfl (by decide), overLimit_of_exec 0 2 rfl (by decide),
    overLimit_of_exec 0 2 (by decide +kernel) (by decide)⟩

end Omnion.Security.Limiter
