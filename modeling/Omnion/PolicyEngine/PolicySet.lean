import Mathlib.Data.Prod.Lex
import Mathlib.Data.String.Basic
import Omnion.Library.Sorting
import Omnion.PolicyEngine.Condition

/-!
# Deciding by policies

A policy applies to a permission when it is enabled, targets the permission and its
condition holds. `PolicySet.decide` sorts the policies that apply by priority, then deny
before allow, then name, and reports the first. `PolicySet.candidates` lists all
policies for the screens, sorted by whether they apply, priority and name. Both sorts
keep the order of the list where these are equal.

## What is proved

* `wellDecided_iff` — the decision is as documented, does not depend on the order of the
  list and is the first candidate (`WellDecided`) exactly when policies that tie in the
  decision are one policy, and a deny that wins has a name before those of the allows it
  wins over.
* `insertion_order_decides` — two policies of one name, priority and effect are decided
  between by their order.
-/

namespace Omnion.PolicyEngine

open Sorting

/-- What a policy says when it applies. -/
inductive PolicyEffect where
  | allow
  | deny
  deriving DecidableEq

/-- `true` for `deny`. -/
def PolicyEffect.isDeny (effect : PolicyEffect) : Bool := effect = .deny

/-- One policy, in the shape the decision needs. -/
structure Policy where
  id : Uuid
  name : String
  effect : PolicyEffect
  /-- Higher wins, an `i32`. -/
  priority : ℤ
  enabled : Bool
  /-- Permission keys, exact or with `*` wildcards. -/
  targetPermissions : List String
  conditions : Condition

/-- The policy that decided an answer. -/
structure PolicyMatch where
  policyId : Uuid
  policyName : String
  effect : PolicyEffect
  priority : ℤ
  deriving DecidableEq

/-- One policy, as the dry run and the simulator see it. -/
structure PolicyCandidate where
  policyId : Uuid
  policyName : String
  effect : PolicyEffect
  priority : ℤ
  enabled : Bool
  /-- Whether its targets cover the permission in question. -/
  targeted : Bool
  satisfied : Bool

/-- `true` when this policy decides the answer. -/
def PolicyCandidate.applies (c : PolicyCandidate) : Bool := c.enabled && c.targeted && c.satisfied

/-- The loop of `wildcard_match`: the positions in the pattern and the text, the last
star seen and where the text it stands for ends so far. -/
def wildcardLoop (pattern text : List Char) (patternAt textAt : ℕ) (star : Option ℕ) (mark : ℕ)
    (hmark : mark ≤ textAt) : Bool :=
  if _ : textAt < text.length then
    if pattern[patternAt]? = text[textAt]? then
      wildcardLoop pattern text (patternAt + 1) (textAt + 1) star mark (Nat.le_succ_of_le hmark)
    else if hstar : pattern[patternAt]? = some '*' then
      wildcardLoop pattern text (patternAt + 1) textAt (some patternAt) textAt le_rfl
    else
      match star with
      | some starAt => wildcardLoop pattern text (starAt + 1) (mark + 1) star (mark + 1) le_rfl
      | none => false
  else
    -- Stars are all that may be left of the pattern.
    (pattern.drop patternAt).all (· = '*')
termination_by (text.length - mark, text.length - textAt, pattern.length - patternAt)
decreasing_by
  · simp only [Prod.lex_def, true_and]
    omega
  · have hpattern := (List.getElem?_eq_some_iff.mp hstar).1
    simp only [Prod.lex_def, true_and]
    omega
  · simp only [Prod.lex_def]
    omega

/-- Glob matching with a single wildcard character. -/
def wildcardMatch (pattern text : String) : Bool :=
  wildcardLoop pattern.toList text.toList 0 0 none 0 (Nat.le_refl 0)

/-- Does a target pattern cover a permission key? -/
def targets (pattern permission : String) : Bool :=
  if pattern = permission then true
  else if '*' ∉ pattern.toList then false
  else wildcardMatch pattern permission

namespace Policy

/-- Whether one of its patterns covers the permission. -/
def targeted (policy : Policy) (permission : String) : Bool :=
  policy.targetPermissions.any fun pattern => targets pattern permission

/-- `PolicySet::matches`: does one policy speak about this permission, condition included? -/
def applies (policy : Policy) (permission : String) (attributes : Attributes) : Bool :=
  policy.enabled && policy.targeted permission && policy.conditions.satisfied attributes

/-- What is reported of a policy that decides. -/
def toMatch (policy : Policy) : PolicyMatch where
  policyId := policy.id
  policyName := policy.name
  effect := policy.effect
  priority := policy.priority

/-- A policy with its target and condition verdict. -/
def candidate (policy : Policy) (permission : String) (attributes : Attributes) : PolicyCandidate where
  policyId := policy.id
  policyName := policy.name
  effect := policy.effect
  priority := policy.priority
  enabled := policy.enabled
  targeted := policy.targeted permission
  satisfied := policy.conditions.satisfied attributes

/-- The order of decisions: higher priority first, then deny before allow, then the name. -/
def rank (policy : Policy) : ℤᵒᵈ ×ₗ Bool ×ₗ String :=
  toLex (OrderDual.toDual policy.priority, toLex (!policy.effect.isDeny, policy.name))

end Policy

namespace PolicyCandidate

/-- What is reported of the policy. -/
def toMatch (c : PolicyCandidate) : PolicyMatch where
  policyId := c.policyId
  policyName := c.policyName
  effect := c.effect
  priority := c.priority

/-- The order of candidates: those that apply first, then higher priority, then the name. -/
def rank (c : PolicyCandidate) : Bool ×ₗ ℤᵒᵈ ×ₗ String :=
  toLex (!c.applies, toLex (OrderDual.toDual c.priority, c.policyName))

end PolicyCandidate

/-- A set of policies, ready to answer. -/
structure PolicySet where
  policies : List Policy

namespace PolicySet

/-- The policy that decides, or `none` when the set says nothing about this request. -/
def decide (set : PolicySet) (permission : String) (attributes : Attributes) : Option PolicyMatch :=
  let candidates := set.policies.filter fun policy => policy.applies permission attributes
  (sortBy Policy.rank candidates).head?.map Policy.toMatch

/-- Every policy with its target and condition verdict. -/
def candidates (set : PolicySet) (permission : String) (attributes : Attributes) :
    List PolicyCandidate :=
  sortBy PolicyCandidate.rank (set.policies.map fun policy => policy.candidate permission attributes)

end PolicySet

/-! ### What a decision should be -/

variable {permission : String} {attributes : Attributes} {policies : List Policy} {p q : Policy}

/-- What a decision should say of the policies: there is none exactly when no policy
applies, and the policy reported has the highest priority of those that apply and is a
deny if there is one at that priority. -/
structure Decides (policies : List Policy) (permission : String) (attributes : Attributes)
    (answer : Option PolicyMatch) : Prop where
  none_iff : answer = none ↔ ∀ p ∈ policies, ¬ p.applies permission attributes
  best : ∀ m, answer = some m → ∃ p ∈ policies, p.applies permission attributes ∧ p.toMatch = m ∧
    (∀ q ∈ policies, q.applies permission attributes → q.priority ≤ p.priority) ∧
      ((∃ q ∈ policies, q.applies permission attributes ∧ q.priority = p.priority ∧ q.effect = .deny) →
        p.effect = .deny)

/-- **What a set of policies is for**: however the policies are ordered, the decision is
what it should be and the same, and it is the first of the candidates. -/
structure WellDecided (policies : List Policy) (permission : String) (attributes : Attributes) :
    Prop where
  decides : ∀ l, l.Perm policies → Decides l permission attributes (PolicySet.decide ⟨l⟩ permission attributes)
  order : ∀ l, l.Perm policies →
    PolicySet.decide ⟨l⟩ permission attributes = PolicySet.decide ⟨policies⟩ permission attributes
  first : ∀ l, l.Perm policies → ∀ m, PolicySet.decide ⟨l⟩ permission attributes = some m →
    ∃ c, (PolicySet.candidates ⟨l⟩ permission attributes).head? = some c ∧ c.toMatch = m

/-- The policy applies, and none that applies is decided before it. -/
def Best (policies : List Policy) (permission : String) (attributes : Attributes) (p : Policy) : Prop :=
  (p ∈ policies ∧ p.applies permission attributes) ∧
    ∀ q ∈ policies, q.applies permission attributes → p.rank ≤ q.rank

/-- The policy applies, and none that applies has a higher priority. -/
def Highest (policies : List Policy) (permission : String) (attributes : Attributes) (p : Policy) :
    Prop :=
  (p ∈ policies ∧ p.applies permission attributes) ∧
    ∀ q ∈ policies, q.applies permission attributes → q.priority ≤ p.priority

/-! ### The order of decisions -/

theorem rank_le_iff :
    p.rank ≤ q.rank ↔
      q.priority < p.priority ∨
        p.priority = q.priority ∧
          (p.effect = .deny ∧ q.effect = .allow ∨ p.effect = q.effect ∧ p.name ≤ q.name) := by
  simp only [Policy.rank, Prod.Lex.toLex_le_toLex, OrderDual.toDual_lt_toDual, OrderDual.toDual_inj]
  cases hp : p.effect <;> cases hq : q.effect <;> simp [PolicyEffect.isDeny]

theorem toMatch_eq_of_rank_eq (h : p.rank = q.rank) (hid : p.id = q.id) : p.toMatch = q.toMatch := by
  simp only [Policy.rank, EmbeddingLike.apply_eq_iff_eq, Prod.mk.injEq] at h
  obtain ⟨hpriority, heffect, hname⟩ := h
  have heffect : p.effect = q.effect := by
    cases hp : p.effect <;> cases hq : q.effect <;> simp_all [PolicyEffect.isDeny]
  simp [Policy.toMatch, hid, hname, heffect, hpriority]

theorem Best.of_perm {l : List Policy} (h : Best policies permission attributes p)
    (hperm : l.Perm policies) :
    Best l permission attributes p :=
  ⟨⟨hperm.mem_iff.mpr h.1.1, h.1.2⟩, fun q hq => h.2 q (hperm.mem_iff.mp hq)⟩

theorem Best.rank_eq (hp : Best policies permission attributes p)
    (hq : Best policies permission attributes q) :
    p.rank = q.rank :=
  le_antisymm (hp.2 q hq.1.1 hq.1.2) (hq.2 p hp.1.1 hp.1.2)

theorem decide_eq_none :
    PolicySet.decide ⟨policies⟩ permission attributes = none ↔ ∀ p ∈ policies, ¬ p.applies permission attributes := by
  rw [PolicySet.decide, Option.map_eq_none_iff, head?_sortBy_eq_none, List.filter_eq_nil_iff]

theorem best_of_decide {m : PolicyMatch}
    (h : PolicySet.decide ⟨policies⟩ permission attributes = some m) :
    ∃ p, Best policies permission attributes p ∧ p.toMatch = m := by
  obtain ⟨p, hfirst, hmatch⟩ := Option.map_eq_some_iff.mp h
  obtain ⟨hmem, hleast⟩ := of_head?_sortBy hfirst
  exact ⟨p, ⟨List.mem_filter.mp hmem, fun q hq hqa => hleast q (List.mem_filter.mpr ⟨hq, hqa⟩)⟩, hmatch⟩

theorem decide_cons (h : Best (p :: policies) permission attributes p) :
    PolicySet.decide ⟨p :: policies⟩ permission attributes = some p.toMatch := by
  have hleast : ∀ q ∈ policies.filter fun p => p.applies permission attributes, p.rank ≤ q.rank := by
    intro q hq
    obtain ⟨hq, hqa⟩ := List.mem_filter.mp hq
    exact h.2 q (List.mem_cons_of_mem _ hq) hqa
  dsimp only [PolicySet.decide]
  rw [List.filter_cons_of_pos (by simpa using h.1.2), head?_sortBy_cons hleast, Option.map_some]

theorem Best.priority_le (h : Best policies permission attributes p) (hq : q ∈ policies)
    (hqa : q.applies permission attributes) : q.priority ≤ p.priority := by
  rcases rank_le_iff.mp (h.2 q hq hqa) with hlt | ⟨heq, -⟩
  · exact hlt.le
  · exact heq.ge

theorem Best.deny (h : Best policies permission attributes p) (hq : q ∈ policies)
    (hqa : q.applies permission attributes) (hpriority : q.priority = p.priority)
    (hdeny : q.effect = .deny) :
    p.effect = .deny := by
  rcases rank_le_iff.mp (h.2 q hq hqa) with hlt | ⟨-, ⟨hp, -⟩ | ⟨heffect, -⟩⟩
  · exact absurd hpriority hlt.ne
  · exact hp
  · exact heffect.trans hdeny

/-- **A decision has the highest priority**, and a deny at that priority wins. -/
theorem decides (policies : List Policy) (permission : String) (attributes : Attributes) :
    Decides policies permission attributes (PolicySet.decide ⟨policies⟩ permission attributes) := by
  refine ⟨decide_eq_none, fun m hm => ?_⟩
  obtain ⟨p, hbest, hmatch⟩ := best_of_decide hm
  refine ⟨p, hbest.1.1, hbest.1.2, hmatch, fun q hq hqa => hbest.priority_le hq hqa, ?_⟩
  rintro ⟨q, hq, hqa, hpriority, hdeny⟩
  exact hbest.deny hq hqa hpriority hdeny

/-! ### The order of candidates -/

theorem candidate_rank (p : Policy) (permission : String) (attributes : Attributes) :
    (p.candidate permission attributes).rank =
      toLex (!p.applies permission attributes, toLex (OrderDual.toDual p.priority, p.name)) := rfl

theorem candidate_rank_le_iff :
    (p.candidate permission attributes).rank ≤ (q.candidate permission attributes).rank ↔
      (p.applies permission attributes ∧ ¬ q.applies permission attributes) ∨
        p.applies permission attributes = q.applies permission attributes ∧
          (q.priority < p.priority ∨ p.priority = q.priority ∧ p.name ≤ q.name) := by
  simp only [candidate_rank, Prod.Lex.toLex_le_toLex, OrderDual.toDual_lt_toDual, OrderDual.toDual_inj]
  cases hp : p.applies permission attributes <;> cases hq : q.applies permission attributes <;> simp

theorem of_head?_candidates {c : PolicyCandidate}
    (h : (PolicySet.candidates ⟨policies⟩ permission attributes).head? = some c) :
    ∃ d ∈ policies, d.candidate permission attributes = c ∧
      ∀ q ∈ policies, (d.candidate permission attributes).rank ≤ (q.candidate permission attributes).rank := by
  obtain ⟨hmem, hleast⟩ := of_head?_sortBy h
  obtain ⟨d, hd, rfl⟩ := List.mem_map.mp hmem
  exact ⟨d, hd, rfl, fun q hq => hleast _ (List.mem_map_of_mem hq)⟩

/-! ### When the decision is what it should be -/

/-- The policies that tie in the decision are one policy. -/
def OneBest (policies : List Policy) (permission : String) (attributes : Attributes) : Prop :=
  ∀ p q, Best policies permission attributes p → Best policies permission attributes q → p.id = q.id

/-- Where a deny wins, each allow it wins over comes after a deny by name. -/
def DenyNamedFirst (policies : List Policy) (permission : String) (attributes : Attributes) : Prop :=
  ∀ p q, Highest policies permission attributes p → p.effect = .allow →
    Highest policies permission attributes q → q.effect = .deny →
      ∃ d, Highest policies permission attributes d ∧ d.effect = .deny ∧ d.name < p.name

theorem exists_perm_cons (h : p ∈ policies) : ∃ l, (p :: l).Perm policies := by
  obtain ⟨s, t, rfl⟩ := List.append_of_mem h
  exact ⟨s ++ t, List.perm_middle.symm⟩

theorem oneBest_of_wellDecided (h : WellDecided policies permission attributes) :
    OneBest policies permission attributes := by
  intro p q hp hq
  -- Either of two best policies is the decision when it is put first.
  have hfirst : ∀ r, Best policies permission attributes r →
      PolicySet.decide ⟨policies⟩ permission attributes = some r.toMatch := by
    intro r hr
    obtain ⟨l, hl⟩ := exists_perm_cons hr.1.1
    rw [← h.order _ hl]
    exact decide_cons (hr.of_perm hl)
  have hmatch : p.toMatch = q.toMatch := Option.some.inj ((hfirst p hp).symm.trans (hfirst q hq))
  exact congrArg PolicyMatch.policyId hmatch

theorem denyNamedFirst_of_wellDecided (h : WellDecided policies permission attributes) :
    DenyNamedFirst policies permission attributes := by
  intro p q hp hallow hq hdeny
  -- The allow is put first in the list.
  obtain ⟨l, hl⟩ := exists_perm_cons hp.1.1
  have hsome : ∃ m, PolicySet.decide ⟨p :: l⟩ permission attributes = some m := by
    rw [← Option.ne_none_iff_exists', Ne, decide_eq_none]
    exact fun hnone => hnone p List.mem_cons_self hp.1.2
  obtain ⟨m, hm⟩ := hsome
  obtain ⟨b, hb, rfl⟩ := best_of_decide hm
  have hbp : b ∈ policies := hl.mem_iff.mp hb.1.1
  have hpriority : b.priority = p.priority :=
    le_antisymm (hp.2 b hbp hb.1.2) (hb.priority_le List.mem_cons_self hp.1.2)
  have hqp : q.priority = p.priority := le_antisymm (hp.2 q hq.1.1 hq.1.2) (hq.2 p hp.1.1 hp.1.2)
  have hbdeny : b.effect = .deny := by
    refine hb.deny (hl.mem_iff.mpr hq.1.1) hq.1.2 ?_ hdeny
    rw [hqp, hpriority]
  -- The first candidate is a deny, so it has another name than the allow before it.
  obtain ⟨c, hc, hcm⟩ := h.first _ hl _ hm
  obtain ⟨d, hd, rfl, hleast⟩ := of_head?_candidates hc
  have hddeny : d.effect = .deny := (congrArg PolicyMatch.effect hcm).trans hbdeny
  have hdp := hleast p List.mem_cons_self
  rcases candidate_rank_le_iff.mp hdp with ⟨-, hnot⟩ | ⟨happlies, hrank⟩
  · exact absurd hp.1.2 hnot
  have hda : d.applies permission attributes := happlies.trans hp.1.2
  have hdpriority : d.priority = p.priority := (congrArg PolicyMatch.priority hcm).trans hpriority
  rcases hrank with hlt | ⟨-, hname⟩
  · exact absurd hdpriority hlt.ne'
  refine ⟨d, ⟨⟨hl.mem_iff.mp hd, hda⟩, fun r hr hra => hdpriority ▸ hp.2 r hr hra⟩, hddeny, lt_of_le_of_ne hname ?_⟩
  intro heq
  have hpfirst : (PolicySet.candidates ⟨p :: l⟩ permission attributes).head? =
      some (p.candidate permission attributes) := by
    refine head?_sortBy_cons fun c hc => ?_
    obtain ⟨r, hr, rfl⟩ := List.mem_map.mp hc
    refine le_trans ?_ (hleast r (List.mem_cons_of_mem _ hr))
    rw [candidate_rank_le_iff]
    exact .inr ⟨happlies.symm, .inr ⟨hdpriority.symm, heq.ge⟩⟩
  have heffect := congrArg PolicyCandidate.effect (Option.some.inj (hc.symm.trans hpfirst))
  have : p.effect = .deny := heffect.symm.trans hddeny
  rw [hallow] at this
  cases this

/-- A candidate listed before all others is a best policy, if one applies. -/
theorem best_of_least_candidate {d : Policy} (hnamed : DenyNamedFirst policies permission attributes)
    (hp : p ∈ policies ∧ p.applies permission attributes) (hd : d ∈ policies)
    (hleast : ∀ q ∈ policies, (d.candidate permission attributes).rank ≤ (q.candidate permission attributes).rank) :
    Best policies permission attributes d := by
  have hda : d.applies permission attributes := by
    rcases candidate_rank_le_iff.mp (hleast p hp.1) with ⟨hda, -⟩ | ⟨heq, -⟩
    · exact hda
    · exact heq.trans hp.2
  have hbefore : ∀ r ∈ policies, r.applies permission attributes →
      r.priority < d.priority ∨ d.priority = r.priority ∧ d.name ≤ r.name := by
    intro r hr hra
    rcases candidate_rank_le_iff.mp (hleast r hr) with ⟨-, hnot⟩ | ⟨-, h⟩
    · exact absurd hra hnot
    · exact h
  have hhighest : ∀ r ∈ policies, r.applies permission attributes → r.priority ≤ d.priority :=
    fun r hr hra =>
    (hbefore r hr hra).elim (fun h => h.le) fun h => h.1.ge
  refine ⟨⟨hd, hda⟩, fun r hr hra => rank_le_iff.mpr ?_⟩
  rcases hbefore r hr hra with hlt | ⟨hpriority, hname⟩
  · exact .inl hlt
  refine .inr ⟨hpriority, ?_⟩
  cases hdeffect : d.effect <;> cases hreffect : r.effect
  · exact .inr ⟨rfl, hname⟩
  · -- An allow before a deny would come after a deny by name.
    obtain ⟨e, he, -, hlt⟩ := hnamed d r ⟨⟨hd, hda⟩, hhighest⟩ hdeffect
      ⟨⟨hr, hra⟩, fun q hq hqa => hpriority ▸ hhighest q hq hqa⟩ hreffect
    rcases hbefore e he.1.1 he.1.2 with hless | ⟨-, hle⟩
    · exact absurd hless (not_lt.mpr (he.2 d hd hda))
    · exact absurd hlt (not_lt.mpr hle)
  · exact .inl ⟨rfl, rfl⟩
  · exact .inr ⟨rfl, hname⟩

/-- **The decision is what it should be** exactly when policies that tie in the decision
are one policy and a deny that wins comes first by name. -/
theorem wellDecided_iff (policies : List Policy) (permission : String) (attributes : Attributes) :
    WellDecided policies permission attributes ↔
      OneBest policies permission attributes ∧ DenyNamedFirst policies permission attributes := by
  constructor
  · exact fun h => ⟨oneBest_of_wellDecided h, denyNamedFirst_of_wellDecided h⟩
  rintro ⟨hone, hnamed⟩
  have hmatch : ∀ {p q : Policy}, Best policies permission attributes p → Best policies permission attributes q →
      p.toMatch = q.toMatch := fun hp hq => toMatch_eq_of_rank_eq (hp.rank_eq hq) (hone _ _ hp hq)
  refine ⟨fun l _ => decides l permission attributes, fun l hl => ?_, fun l hl m hm => ?_⟩
  · rcases hdecide : PolicySet.decide ⟨l⟩ permission attributes with _ | m
    · rw [decide_eq_none] at hdecide
      rw [eq_comm, decide_eq_none]
      exact fun p hp => hdecide p (hl.mem_iff.mpr hp)
    · obtain ⟨p, hp, rfl⟩ := best_of_decide hdecide
      rcases hdecide' : PolicySet.decide ⟨policies⟩ permission attributes with _ | m
      · rw [decide_eq_none] at hdecide'
        exact absurd hp.1.2 (hdecide' p (hl.mem_iff.mp hp.1.1))
      · obtain ⟨q, hq, rfl⟩ := best_of_decide hdecide'
        rw [hmatch (hp.of_perm hl.symm) hq]
  · obtain ⟨p, hp, rfl⟩ := best_of_decide hm
    have hp := hp.of_perm hl.symm
    rcases hc : (PolicySet.candidates ⟨l⟩ permission attributes).head? with _ | c
    · have hnil : l = [] := List.map_eq_nil_iff.mp (head?_sortBy_eq_none.mp hc)
      exact absurd (hl.mem_iff.mpr hp.1.1) (by simp [hnil])
    · obtain ⟨d, hd, rfl, hleast⟩ := of_head?_candidates hc
      have hbest :=
        best_of_least_candidate hnamed hp.1 (hl.mem_iff.mp hd) fun q hq => hleast q (hl.mem_iff.mpr hq)
      exact ⟨_, rfl, hmatch hbest hp⟩

/-- Two policies of one name, priority and effect are decided between by their order. -/
theorem insertion_order_decides :
    ¬ WellDecided
      [⟨1, "publishing", .allow, 10, true, ["content.pages.publish"], .all []⟩,
        ⟨2, "publishing", .allow, 10, true, ["content.pages.publish"], .all []⟩]
      "content.pages.publish" ⟨[]⟩ := by
  intro h
  have hswapped := h.order _ (List.Perm.swap _ _ _)
  exact absurd hswapped (by decide)

end Omnion.PolicyEngine
