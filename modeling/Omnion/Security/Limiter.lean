import Mathlib.Data.List.Nodup
import Mathlib.Tactic.FinCases
import Omnion.Core.Json
import Omnion.Core.Net
import Omnion.Library.Fallible

/-!
# The rate-limit policy

`crates/security/src/limiter.rs`: what each scope allows, how a document of policies is read
in three places, and how a request is decided.

## The model

`i32` and `i64` wrap around, as in a release build. The message serde gives for a row it cannot
read is an argument.

## What is proved

* `parseDocument_sound_iff` — what was read is in range, has every scope once, agrees with the
  merged policies and is decided without overflow, just when the rows are in range and name
  different, known scopes.
* `zero_window_read` — a window of no seconds is read.

## Honest scope

Which scope a request belongs to is an argument of `decide`.
-/

namespace Omnion.Security

/-- `i32` arithmetic. -/
def wrapI32 (n : ℤ) : ℤ := n.bmod 0x100000000

/-- `i64` arithmetic. -/
def wrapI64 (n : ℤ) : ℤ := n.bmod 0x10000000000000000

/-- The number is an `i32`. -/
def FitsI32 (n : ℤ) : Prop := -0x80000000 ≤ n ∧ n ≤ 0x7fffffff

/-- The number is an `i64`. -/
def FitsI64 (n : ℤ) : Prop := -0x8000000000000000 ≤ n ∧ n ≤ 0x7fffffffffffffff

theorem wrapI32_eq {n : ℤ} (h : FitsI32 n) : wrapI32 n = n := by
  obtain ⟨hlow, hhigh⟩ := h
  rw [wrapI32]
  exact Int.bmod_eq_of_le_mul_two (by omega) (by omega)

theorem wrapI64_eq {n : ℤ} (h : FitsI64 n) : wrapI64 n = n := by
  obtain ⟨hlow, hhigh⟩ := h
  rw [wrapI64]
  exact Int.bmod_eq_of_le_mul_two (by omega) (by omega)

/-- `RATE_SCOPES`. -/
def rateScopes : List String := ["global", "sign_in", "public_api", "authenticated_api", "webhook_intake"]

/-- `MAX_WINDOW_SECONDS`. -/
def maxWindowSeconds : ℤ := 86400

/-- `MIN_LIMIT`. -/
def minLimit : ℤ := 1

/-- `MAX_LIMIT`. -/
def maxLimit : ℤ := 1000000

/-- `MAX_BURST`. -/
def maxBurst : ℤ := 10000

/-- One scope's policy. -/
structure RatePolicy where
  scope : String
  /-- The window in seconds, an `i64`. -/
  windowSeconds : ℤ
  /-- Requests allowed per window, an `i32`. -/
  limit : ℤ
  /-- Extra requests forgiven inside the same window, an `i32`. -/
  burst : ℤ
  /-- Whether the scope is enforced at all. -/
  enabled : Bool

/-- The client identity a limiter counts. -/
structure ClientId where
  /-- The authenticated user, when there is one. -/
  userId : Option String
  ip : Option IpAddr

/-- What the limiter decided. -/
structure Verdict where
  /-- Whether the request is refused. -/
  limited : Bool
  scope : String
  reason : String
  /-- What the scope counts, including the request. -/
  count : ℤ
  /-- The ceiling the count was measured against. -/
  ceiling : ℤ
  /-- Seconds until the window frees a place. -/
  retryAfter : Option ℤ

/-- The string the counter is keyed on. -/
def ClientId.key (client : ClientId) : String :=
  match client.userId, client.ip with
  | some user, _ => s!"user:{user}"
  | none, some ip => s!"ip:{ip.text}"
  | none, none => "anon"

/-- FNV-1a, as 16 hexadecimal digits. -/
def shortHash (value : String) : String :=
  let hash := value.toUTF8.toList.foldl (fun hash byte => (hash ^^^ byte.toUInt64) * 0x100000001b3)
    (0xcbf29ce484222325 : UInt64)
  let digits := (Text.hex hash.toNat).toList
  String.ofList (List.replicate (16 - digits.length) '0' ++ digits)

namespace RatePolicy

/-- The ranges `new` enforces. -/
structure InRange (policy : RatePolicy) : Prop where
  /-- `1..=MAX_WINDOW_SECONDS`. -/
  window : 1 ≤ policy.windowSeconds ∧ policy.windowSeconds ≤ maxWindowSeconds
  /-- `MIN_LIMIT..=MAX_LIMIT`. -/
  limit : minLimit ≤ policy.limit ∧ policy.limit ≤ maxLimit
  /-- `0..=MAX_BURST`. -/
  burst : 0 ≤ policy.burst ∧ policy.burst ≤ maxBurst

/-- The document a platform starts from. -/
def defaults : List RatePolicy :=
  [{ scope := "global", windowSeconds := 60, limit := 600, burst := 100, enabled := true },
    { scope := "sign_in", windowSeconds := 300, limit := 10, burst := 0, enabled := true },
    { scope := "public_api", windowSeconds := 60, limit := 120, burst := 20, enabled := true },
    { scope := "authenticated_api", windowSeconds := 60, limit := 1200, burst := 200, enabled := true },
    { scope := "webhook_intake", windowSeconds := 60, limit := 300, burst := 50, enabled := true }]

/-- Whether the scope's window admits a request. -/
def admits (policy : RatePolicy) (count : ℤ) : Bool := count ≤ wrapI32 (policy.limit + policy.burst)

/-- The most requests the scope allows inside its window, including burst. -/
def ceiling (policy : RatePolicy) : ℤ := wrapI32 (policy.limit + policy.burst)

/-- Which window an instant, in seconds, lies in. -/
def bucket (policy : RatePolicy) (now : ℤ) : ℤ := now / max policy.windowSeconds 1

/-- The seconds since the window began. -/
def elapsed (policy : RatePolicy) (now : ℤ) : ℤ := now % max policy.windowSeconds 1

/-- The seconds left of the window. -/
def remaining (policy : RatePolicy) (now : ℤ) : ℤ := max (wrapI64 (policy.windowSeconds - policy.elapsed now)) 1

/-- The identity a scope's counter is keyed on. -/
def counterIdentity (policy : RatePolicy) (client : ClientId) : String :=
  if policy.scope = "authenticated_api" then client.key
  else
    match client.ip with
    | some ip => s!"ip:{ip.text}"
    | none => client.key

/-- The Redis key a scope's counter lives under. -/
def counterKey (policy : RatePolicy) (client : ClientId) (now : ℤ) : String :=
  s!"omnion:rl:{policy.scope}:{policy.bucket now}:{shortHash (policy.counterIdentity client)}"

end RatePolicy

namespace Limiter

/-- The policy in force for a scope: the first one with its name. -/
def policyFor (policies : List RatePolicy) (scope : String) : Option RatePolicy :=
  policies.find? fun policy => policy.scope = scope

/-- What `decide` answers once it has found the policy. -/
def judge (policy : RatePolicy) (scope : String) (client : ClientId) (count now : ℤ) : Verdict :=
  if !policy.enabled then {
    limited := false
    scope
    reason := s!"the {scope} scope is switched off"
    count
    ceiling := policy.ceiling
    retryAfter := none }
  else if policy.scope = "public_api" ∧ client.userId.isSome then {
    limited := false
    scope
    reason := "an authenticated request is not counted against the public scope"
    count := 0
    ceiling := policy.ceiling
    retryAfter := none }
  else if policy.admits count then {
    limited := false
    scope
    reason := s!"{count} of {policy.ceiling} requests in the window"
    count
    ceiling := policy.ceiling
    retryAfter := none }
  else {
    limited := true
    scope
    reason := s!"{count} requests exceeds the ceiling of {policy.ceiling} in the {policy.windowSeconds}-second window"
    count
    ceiling := policy.ceiling
    retryAfter := some (policy.remaining now) }

def missingPolicy (scope : String) : String :=
  s!"no rate-limit policy for scope \"{scope}\" — the platform cannot decide whether this request is allowed"

/-- Decide a request against a policy, from the count the store read. -/
def decide (policies : List RatePolicy) (scope : String) (client : ClientId) (count now : ℤ) :
    Except String Verdict :=
  match policyFor policies scope with
  | none => .error (missingPolicy scope)
  | some policy => .ok (judge policy scope client count now)

/-! ### Documents -/

/-- A field of a row: serde reads a row from an object, or from an array of the fields in
their order. -/
def field (index : ℕ) (key : String) : Json → Option Json
  | .object fields => fields.lookup key
  | .array items => if items.length = 5 then items[index]? else none
  | _ => none

/-- The scope a row names. -/
def rowScope (row : Json) : Option String := (field 0 "scope" row).bind Json.asStr

def rowWindow (row : Json) : Option ℤ := (field 1 "window_seconds" row).bind Json.asI64

/-- A number of a row, an `i32`. -/
def rowI32 (index : ℕ) (key : String) (row : Json) : Option ℤ :=
  ((field index key row).bind Json.asI64).filter fun n => -0x80000000 ≤ n && n ≤ 0x7fffffff

/-- A row's limit. -/
def rowLimit (row : Json) : Option ℤ := rowI32 2 "limit" row

/-- A row's burst. -/
def rowBurst (row : Json) : Option ℤ := rowI32 3 "burst" row

/-- `serde_json::from_value`. -/
def readRow (row : Json) : Option RatePolicy := do
  let scope ← rowScope row
  let windowSeconds ← rowWindow row
  let limit ← rowLimit row
  let burst ← rowBurst row
  let enabled ← (field 4 "enabled" row).bind Json.asBool
  pure { scope, windowSeconds, limit, burst, enabled }

/-- Put a policy where the first one of its scope is. -/
def place (stored : RatePolicy) : List RatePolicy → List RatePolicy
  | [] => []
  | policy :: rest => if policy.scope = stored.scope then stored :: rest else policy :: place stored rest

/-- Merge one row that could be read. -/
def mergePolicy (merged : List RatePolicy) (stored : RatePolicy) : List RatePolicy :=
  if stored.scope ∈ rateScopes then place stored merged else merged

/-- Merge one row; what cannot be read is skipped. -/
def mergeRow (merged : List RatePolicy) (row : Json) : List RatePolicy :=
  (readRow row).elim merged (mergePolicy merged)

/-- Merge a stored document with the defaults. -/
def mergeWithDefaults (document : Json) : List RatePolicy :=
  match document.asArray with
  | none => RatePolicy.defaults
  | some rows => rows.foldl mergeRow RatePolicy.defaults

/-- One row of a document, or why it could not be read. -/
def parseRow (readError : Json → String) (row : Json) : Except String RatePolicy :=
  match readRow row with
  | some policy => .ok policy
  | none => .error s!"a rate-limit row could not be read: {readError row}"

/-- Read a whole document into policies. -/
def parseDocument (readError : Json → String) (document : Json) : Except String (List RatePolicy) :=
  match document.asArray with
  | none => .ok RatePolicy.defaults
  | some rows => rows.mapM (parseRow readError)

/-! ### A policy in range -/

section InRange

variable {policy : RatePolicy} (h : policy.InRange)

include h

theorem fits_ceiling : FitsI32 (policy.limit + policy.burst) := by
  have hlimit := h.limit
  have hburst := h.burst
  simp only [minLimit, maxLimit, maxBurst] at hlimit hburst
  exact ⟨by omega, by omega⟩

theorem ceiling_eq : policy.ceiling = policy.limit + policy.burst := wrapI32_eq (fits_ceiling h)

theorem elapsed_range (now : ℤ) : 0 ≤ policy.elapsed now ∧ policy.elapsed now < policy.windowSeconds := by
  have hwindow := h.window.1
  rw [RatePolicy.elapsed, Int.max_eq_left hwindow]
  exact ⟨Int.emod_nonneg _ (by omega), Int.emod_lt_of_pos _ (by omega)⟩

theorem fits_remaining (now : ℤ) : FitsI64 (policy.windowSeconds - policy.elapsed now) := by
  have hwindow := h.window
  have helapsed := elapsed_range h now
  simp only [maxWindowSeconds] at hwindow
  exact ⟨by omega, by omega⟩

theorem remaining_range (now : ℤ) : 1 ≤ policy.remaining now ∧ policy.remaining now ≤ policy.windowSeconds := by
  have helapsed := elapsed_range h now
  rw [RatePolicy.remaining, wrapI64_eq (fits_remaining h now)]
  omega

end InRange

/-- The arithmetic of a decision stays inside its types. -/
structure Computes (policy : RatePolicy) (now : ℤ) : Prop where
  /-- `limit + burst`. -/
  ceiling : FitsI32 (policy.limit + policy.burst)
  /-- `window_seconds - elapsed`. -/
  remaining : FitsI64 (policy.windowSeconds - policy.elapsed now)

/-- A verdict measures against limit and burst, and asks for no longer wait than a window. -/
structure Measured (policy : RatePolicy) (verdict : Verdict) : Prop where
  ceiling : verdict.ceiling = policy.limit + policy.burst
  retryAfter : ∀ seconds, verdict.retryAfter = some seconds → 1 ≤ seconds ∧ seconds ≤ policy.windowSeconds

theorem measured_judge {policy : RatePolicy} (h : policy.InRange) (scope : String) (client : ClientId)
    (count now : ℤ) : Measured policy (judge policy scope client count now) := by
  have hceiling := ceiling_eq h
  have hremaining := remaining_range h now
  rw [judge]
  split_ifs
  · exact ⟨hceiling, fun _ hnone => by cases hnone⟩
  · exact ⟨hceiling, fun _ hnone => by cases hnone⟩
  · exact ⟨hceiling, fun _ hnone => by cases hnone⟩
  · refine ⟨hceiling, fun seconds hseconds => ?_⟩
    obtain rfl : policy.remaining now = seconds := Option.some.inj hseconds
    exact hremaining

/-- **A decision by a policy in range** does not overflow, whatever was counted. -/
theorem decide_inRange {policies : List RatePolicy} {policy : RatePolicy} {scope : String}
    (hpolicy : policyFor policies scope = some policy) (h : policy.InRange) (client : ClientId) (count now : ℤ) :
    Computes policy now ∧
      ∃ verdict, decide policies scope client count now = .ok verdict ∧ Measured policy verdict := by
  refine ⟨⟨fits_ceiling h, fits_remaining h now⟩, judge policy scope client count now, ?_, ?_⟩
  · rw [decide, hpolicy]
  · exact measured_judge h scope client count now

/-! ### The three readings -/

theorem scope_of_policyFor {policies : List RatePolicy} {policy : RatePolicy} {scope : String}
    (h : policyFor policies scope = some policy) : policy.scope = scope := by
  simpa using List.find?_some h

theorem policyFor_cons (policy : RatePolicy) (rest : List RatePolicy) (scope : String) :
    policyFor (policy :: rest) scope = if policy.scope = scope then some policy else policyFor rest scope := by
  simp only [policyFor, List.find?_cons]
  by_cases h : policy.scope = scope <;> simp [h]

theorem policyFor_eq_none {policies : List RatePolicy} {scope : String} :
    policyFor policies scope = none ↔ scope ∉ policies.map RatePolicy.scope := by
  simp [policyFor]

theorem policyFor_of_mem {policies : List RatePolicy} {policy : RatePolicy}
    (h : (policies.map RatePolicy.scope).Nodup) (hpolicy : policy ∈ policies) :
    policyFor policies policy.scope = some policy := by
  induction policies with
  | nil => cases hpolicy
  | cons first rest ih =>
    rw [List.map_cons, List.nodup_cons] at h
    rw [policyFor_cons]
    rcases List.mem_cons.mp hpolicy with rfl | hrest
    · rw [if_pos rfl]
    · have hscope : first.scope ≠ policy.scope := fun heq => h.1 (heq ▸ List.mem_map_of_mem hrest)
      rw [if_neg hscope]
      exact ih h.2 hrest

@[simp] theorem map_scope_place (stored : RatePolicy) (merged : List RatePolicy) :
    (place stored merged).map RatePolicy.scope = merged.map RatePolicy.scope := by
  induction merged with
  | nil => rfl
  | cons policy rest ih =>
    rw [place]
    split_ifs with h
    · simp [h]
    · simp [ih]

theorem policyFor_place_self {stored : RatePolicy} {merged : List RatePolicy}
    (h : stored.scope ∈ merged.map RatePolicy.scope) : policyFor (place stored merged) stored.scope = some stored := by
  induction merged with
  | nil => cases h
  | cons policy rest ih =>
    rw [place]
    split_ifs with hscope
    · rw [policyFor_cons, if_pos rfl]
    · rw [policyFor_cons, if_neg hscope]
      exact ih ((List.mem_cons.mp h).resolve_left (Ne.symm hscope))

theorem policyFor_place_of_ne {stored : RatePolicy} {scope : String} (merged : List RatePolicy)
    (h : stored.scope ≠ scope) : policyFor (place stored merged) scope = policyFor merged scope := by
  induction merged with
  | nil => rfl
  | cons policy rest ih =>
    rw [place]
    split_ifs with hscope
    · rw [policyFor_cons, policyFor_cons, if_neg h, if_neg (hscope ▸ h)]
    · rw [policyFor_cons, policyFor_cons, ih]

@[simp] theorem map_scope_mergePolicy (merged : List RatePolicy) (stored : RatePolicy) :
    (mergePolicy merged stored).map RatePolicy.scope = merged.map RatePolicy.scope := by
  rw [mergePolicy]
  split_ifs
  · exact map_scope_place stored merged
  · rfl

theorem map_scope_foldl (policies merged : List RatePolicy) :
    (policies.foldl mergePolicy merged).map RatePolicy.scope = merged.map RatePolicy.scope := by
  induction policies generalizing merged with
  | nil => rfl
  | cons policy policies ih => rw [List.foldl_cons, ih, map_scope_mergePolicy]

theorem policyFor_foldl {policies merged : List RatePolicy} {scope : String}
    (h : (policies.map RatePolicy.scope).Nodup) (hknown : scope ∈ rateScopes)
    (hmerged : scope ∈ merged.map RatePolicy.scope) :
    policyFor (policies.foldl mergePolicy merged) scope = (policyFor policies scope).or (policyFor merged scope) := by
  induction policies generalizing merged with
  | nil => rfl
  | cons policy policies ih =>
    rw [List.map_cons, List.nodup_cons] at h
    rw [List.foldl_cons, ih h.2 (by rwa [map_scope_mergePolicy]), policyFor_cons]
    by_cases hscope : policy.scope = scope
    · -- No later policy has this scope.
      subst hscope
      rw [if_pos rfl, policyFor_eq_none.mpr h.1, mergePolicy, if_pos hknown, policyFor_place_self hmerged]
      rfl
    · have hplace : policyFor (mergePolicy merged policy) scope = policyFor merged scope := by
        rw [mergePolicy]
        split_ifs
        · exact policyFor_place_of_ne merged hscope
        · rfl
      rw [if_neg hscope, hplace]

/-! ### What was read -/

theorem readRow_eq_some {row : Json} {policy : RatePolicy} (h : readRow row = some policy) :
    rowScope row = some policy.scope ∧ rowWindow row = some policy.windowSeconds ∧
      rowLimit row = some policy.limit ∧ rowBurst row = some policy.burst := by
  simp only [readRow, Option.bind_eq_bind, Option.pure_def, Option.bind_eq_some_iff, Option.some.injEq] at h
  obtain ⟨scope, hscope, window, hwindow, limit, hlimit, burst, hburst, enabled, -, rfl⟩ := h
  exact ⟨hscope, hwindow, hlimit, hburst⟩

theorem parseRow_eq_ok {readError : Json → String} {row : Json} {policy : RatePolicy}
    (h : parseRow readError row = .ok policy) : readRow row = some policy := by
  unfold parseRow at h
  split at h
  · cases h
    assumption
  · cases h

/-- A list of rows and the policies read from them. -/
abbrev ReadAs : List Json → List RatePolicy → Prop := List.Forall₂ fun row policy => readRow row = some policy

theorem readAs_of_mapM {readError : Json → String} {rows : List Json} {policies : List RatePolicy}
    (h : rows.mapM (parseRow readError) = .ok policies) : ReadAs rows policies := by
  induction rows generalizing policies with
  | nil =>
    obtain rfl : [] = policies := Except.ok.inj h
    exact List.Forall₂.nil
  | cons row rows ih =>
    rw [List.mapM_cons] at h
    obtain ⟨policy, hpolicy, h⟩ := Fallible.bind_eq_ok.mp h
    obtain ⟨rest, hrest, h⟩ := Fallible.bind_eq_ok.mp h
    obtain rfl : policy :: rest = policies := Except.ok.inj h
    exact List.Forall₂.cons (parseRow_eq_ok hpolicy) (ih hrest)

theorem foldl_mergeRow {rows : List Json} {policies : List RatePolicy} (h : ReadAs rows policies)
    (merged : List RatePolicy) : rows.foldl mergeRow merged = policies.foldl mergePolicy merged := by
  induction h generalizing merged with
  | nil => rfl
  | cons hrow _ ih =>
    rw [List.foldl_cons, List.foldl_cons, ih, mergeRow, hrow]
    rfl

theorem map_rowScope {rows : List Json} {policies : List RatePolicy} (h : ReadAs rows policies) :
    rows.map rowScope = (policies.map RatePolicy.scope).map some := by
  induction h with
  | nil => rfl
  | cons hrow _ ih => rw [List.map_cons, List.map_cons, List.map_cons, ih, (readRow_eq_some hrow).1]

/-- Every number of a row is in its range, and the scope is known. -/
structure RowInRange (row : Json) : Prop where
  /-- One of `RATE_SCOPES`. -/
  scope : ∃ scope ∈ rateScopes, rowScope row = some scope
  /-- `1..=MAX_WINDOW_SECONDS`. -/
  window : ∃ n, rowWindow row = some n ∧ 1 ≤ n ∧ n ≤ maxWindowSeconds
  /-- `MIN_LIMIT..=MAX_LIMIT`. -/
  limit : ∃ n, rowLimit row = some n ∧ minLimit ≤ n ∧ n ≤ maxLimit
  /-- `0..=MAX_BURST`. -/
  burst : ∃ n, rowBurst row = some n ∧ 0 ≤ n ∧ n ≤ maxBurst

/-- The rows are in range, and no two name one scope. -/
structure Proper (rows : List Json) : Prop where
  inRange : ∀ row ∈ rows, RowInRange row
  once : (rows.map rowScope).Nodup

/-- What a document should come to, for the policies read from it. -/
structure Sound (document : Json) (policies : List RatePolicy) : Prop where
  /-- The ranges `new` enforces. -/
  inRange : ∀ policy ∈ policies, policy.InRange
  once : (policies.map RatePolicy.scope).Nodup
  /-- The merged policies agree on the scopes named. -/
  merged : ∀ scope ∈ policies.map RatePolicy.scope,
    policyFor (mergeWithDefaults document) scope = policyFor policies scope
  /-- Decisions do not overflow, and the wait is within the window. -/
  decided : ∀ policy ∈ policies, ∀ (client : ClientId) (count now : ℤ), Computes policy now ∧
    ∃ verdict, decide policies policy.scope client count now = .ok verdict ∧ Measured policy verdict

theorem inRange_defaults : ∀ policy ∈ RatePolicy.defaults, policy.InRange := by
  intro policy hpolicy
  fin_cases hpolicy <;> exact ⟨by decide, by decide, by decide⟩

theorem map_scope_defaults : RatePolicy.defaults.map RatePolicy.scope = rateScopes := rfl

theorem decided_of_inRange {policies : List RatePolicy} (hrange : ∀ policy ∈ policies, policy.InRange)
    (honce : (policies.map RatePolicy.scope).Nodup) {policy : RatePolicy} (hpolicy : policy ∈ policies)
    (client : ClientId) (count now : ℤ) : Computes policy now ∧
      ∃ verdict, decide policies policy.scope client count now = .ok verdict ∧ Measured policy verdict :=
  decide_inRange (policyFor_of_mem honce hpolicy) (hrange policy hpolicy) client count now

theorem sound_defaults {document : Json} (h : document.asArray = none) : Sound document RatePolicy.defaults where
  inRange := inRange_defaults
  once := by decide
  merged := fun scope _ => by rw [mergeWithDefaults, h]
  decided := fun _ hpolicy => decided_of_inRange inRange_defaults (by decide) hpolicy

section Rows

variable {document : Json} {rows : List Json} {policies : List RatePolicy}
variable (hrows : document.asArray = some rows) (hread : ReadAs rows policies)

include hread

theorem exists_row {policy : RatePolicy} (h : policy ∈ policies) : ∃ row ∈ rows, readRow row = some policy := by
  obtain ⟨i, hi, rfl⟩ := List.getElem_of_mem h
  exact ⟨rows.get ⟨i, hread.length_eq ▸ hi⟩, List.get_mem _ _, hread.get (hread.length_eq ▸ hi) hi⟩

theorem exists_policy {row : Json} (h : row ∈ rows) : ∃ policy ∈ policies, readRow row = some policy := by
  obtain ⟨i, hi, rfl⟩ := List.getElem_of_mem h
  exact ⟨policies.get ⟨i, hread.length_eq ▸ hi⟩, List.get_mem _ _, hread.get hi (hread.length_eq ▸ hi)⟩

theorem once_iff : (rows.map rowScope).Nodup ↔ (policies.map RatePolicy.scope).Nodup := by
  rw [map_rowScope hread]
  exact List.nodup_map_iff (Option.some_injective String)

include hrows

theorem mergeWithDefaults_eq : mergeWithDefaults document = policies.foldl mergePolicy RatePolicy.defaults := by
  rw [mergeWithDefaults, hrows]
  exact foldl_mergeRow hread RatePolicy.defaults

theorem sound_of_proper (h : Proper rows) : Sound document policies := by
  have honce := (once_iff hread).mp h.once
  have hrange : ∀ policy ∈ policies, policy.InRange := by
    intro policy hpolicy
    obtain ⟨row, hrow, hpolicyRow⟩ := exists_row hread hpolicy
    obtain ⟨-, hwindow, hlimit, hburst⟩ := readRow_eq_some hpolicyRow
    obtain ⟨-, ⟨window, hwindow', hw⟩, ⟨limit, hlimit', hl⟩, burst, hburst', hb⟩ := h.inRange row hrow
    obtain rfl : policy.windowSeconds = window := Option.some.inj (hwindow.symm.trans hwindow')
    obtain rfl : policy.limit = limit := Option.some.inj (hlimit.symm.trans hlimit')
    obtain rfl : policy.burst = burst := Option.some.inj (hburst.symm.trans hburst')
    exact ⟨hw, hl, hb⟩
  refine ⟨hrange, honce, ?_, fun _ hpolicy => decided_of_inRange hrange honce hpolicy⟩
  intro scope hscope
  obtain ⟨policy, hpolicy, rfl⟩ := List.mem_map.mp hscope
  obtain ⟨row, hrow, hpolicyRow⟩ := exists_row hread hpolicy
  obtain ⟨scope, hknown, hscopeRow⟩ := (h.inRange row hrow).scope
  obtain rfl : policy.scope = scope := Option.some.inj ((readRow_eq_some hpolicyRow).1.symm.trans hscopeRow)
  rw [mergeWithDefaults_eq hrows hread, policyFor_foldl honce hknown (by rwa [map_scope_defaults]),
    policyFor_of_mem honce hpolicy]
  rfl

theorem proper_of_sound (h : Sound document policies) : Proper rows := by
  refine ⟨fun row hrow => ?_, (once_iff hread).mpr h.once⟩
  obtain ⟨policy, hpolicy, hpolicyRow⟩ := exists_policy hread hrow
  obtain ⟨hscope, hwindow, hlimit, hburst⟩ := readRow_eq_some hpolicyRow
  have hrange := h.inRange policy hpolicy
  refine ⟨⟨policy.scope, ?_, hscope⟩, ⟨_, hwindow, hrange.window⟩, ⟨_, hlimit, hrange.limit⟩, _, hburst, hrange.burst⟩
  -- The merged policies have the scopes of the defaults, and no other.
  have hmerged := h.merged policy.scope (List.mem_map_of_mem hpolicy)
  rw [mergeWithDefaults_eq hrows hread, policyFor_of_mem h.once hpolicy] at hmerged
  rw [← map_scope_defaults, ← map_scope_foldl policies]
  exact List.mem_map_of_mem (List.mem_of_find?_eq_some hmerged)

end Rows

/-- **A document that is read comes to what it should** just when it is not an array, or its
rows are in range and name different, known scopes. -/
theorem parseDocument_sound_iff (readError : Json → String) {document : Json} {policies : List RatePolicy}
    (h : parseDocument readError document = .ok policies) :
    Sound document policies ↔ ∀ rows, document.asArray = some rows → Proper rows := by
  rw [parseDocument] at h
  cases hrows : document.asArray with
  | none =>
    rw [hrows] at h
    obtain rfl : RatePolicy.defaults = policies := Except.ok.inj h
    simp [sound_defaults hrows]
  | some rows =>
    rw [hrows] at h
    have hread := readAs_of_mapM h
    constructor
    · rintro hsound _ ⟨⟩
      exact proper_of_sound hrows hread hsound
    · exact fun hproper => sound_of_proper hrows hread (hproper rows rfl)

/-- A row as the panel saves it. -/
def savedRow (scope : String) (window limit burst : ℤ) (enabled : Bool) : Json :=
  .object [("burst", .number (.int burst)), ("enabled", .bool enabled), ("limit", .number (.int limit)),
    ("scope", .string scope), ("window_seconds", .number (.int window))]

theorem two_scopes_read :
    let rows := [savedRow "sign_in" 300 10 0 true, savedRow "global" 60 1000000 10000 false]
    Sound (.array rows) [⟨"sign_in", 300, 10, 0, true⟩, ⟨"global", 60, 1000000, 10000, false⟩] := by
  refine (parseDocument_sound_iff (fun _ => "") rfl).mpr ?_
  rintro _ ⟨⟩
  refine ⟨fun row hrow => ?_, by decide⟩
  fin_cases hrow
  · exact ⟨⟨"sign_in", by decide, rfl⟩, ⟨300, rfl, by decide⟩, ⟨10, rfl, by decide⟩, ⟨0, rfl, by decide⟩⟩
  · exact ⟨⟨"global", by decide, rfl⟩, ⟨60, rfl, by decide⟩, ⟨1000000, rfl, by decide⟩, ⟨10000, rfl, by decide⟩⟩

/-- A window of no seconds, which `new` refuses, is read from a document. -/
theorem zero_window_read : ∃ policies,
    parseDocument (fun _ => "") (.array [savedRow "global" 0 10 0 true]) = .ok policies ∧
      ¬ Sound (.array [savedRow "global" 0 10 0 true]) policies := by
  refine ⟨[⟨"global", 0, 10, 0, true⟩], rfl, fun h => ?_⟩
  have hwindow := (h.inRange ⟨"global", 0, 10, 0, true⟩ (List.mem_singleton.mpr rfl)).window.1
  exact absurd hwindow (by decide)

end Limiter

end Omnion.Security
