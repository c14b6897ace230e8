import Omnion.Core.NetText
import Omnion.Library.Selection

/-!
# The IP access rules

`evaluate` of `crates/security/src/ip_rules.rs`: what the two lists of rules say about one
address.

## The model

How the text of a network is read and what it contains is decided by the crate `ipnet`, an argument.

## What is proved

* `evaluate_order_iff` — the verdict is the same in every order of the rules just when no
  two different rules could decide it; an address is blocked just when a deny rule that has
  not expired contains it.
* `named_by_order` — of two deny rules that contain an address the first is named.
-/

namespace Omnion.Security

open Selection

variable {Net : Type}

/-- Which list a rule is on. -/
inductive RuleKind where
  /-- A network that may reach the API. -/
  | allow
  | deny
  deriving DecidableEq

/-- One row of `/security/ip-access`. -/
structure IpRule where
  id : Uuid
  kind : RuleKind
  /-- The network, in `cidr` text form. -/
  cidr : String
  note : String
  createdBy : Option Uuid
  createdAt : Instant
  /-- When it stops applying. `none` never expires. -/
  expiresAt : Option Instant
  deriving DecidableEq

/-- What the access list says about one address. -/
structure IpVerdict where
  /-- Whether the address may not proceed. -/
  blocked : Bool
  decision : Option RuleKind
  matchedRule : Option IpRule
  /-- A rule that would have matched but has expired. -/
  expired : Option IpRule
  reason : String

namespace IpRule

/-- Whether the network contains the address; a rule that cannot be read contains none. -/
def contains (ipnet : Ipnet Net) (rule : IpRule) (address : IpAddr) : Bool :=
  (ipnet.parse rule.cidr).any (ipnet.contains · address)

def isExpired (rule : IpRule) (now : Instant) : Bool := rule.expiresAt.any fun last => last ≤ now

end IpRule

/-- The rules the loop of `evaluate` has kept. -/
structure KeptRules where
  /-- `matched_deny`. -/
  deny : Option IpRule := none
  /-- `matched_allow`. -/
  allow : Option IpRule := none
  /-- `expired_deny`. -/
  expiredDeny : Option IpRule := none

/-- One pass of the loop. -/
def KeptRules.visit (ipnet : Ipnet Net) (address : IpAddr) (now : Instant) (kept : KeptRules)
    (rule : IpRule) : KeptRules :=
  if !rule.contains ipnet address then kept
  else if rule.isExpired now then
    { kept with expiredDeny := kept.expiredDeny.or (if rule.kind = .deny then some rule else none) }
  else
    match rule.kind with
    | .deny => { kept with deny := kept.deny.or (some rule) }
    | .allow => { kept with allow := kept.allow.or (some rule) }

/-- What the rules kept say. -/
def KeptRules.verdict (kept : KeptRules) (address : IpAddr) : IpVerdict :=
  match kept.deny, kept.allow with
  | some deny, _ => {
      blocked := true
      decision := some .deny
      matchedRule := some deny
      expired := kept.expiredDeny
      reason := s!"{address.text} is inside {deny.cidr}, which is on the deny list" }
  | none, some allow => {
      blocked := false
      decision := some .allow
      matchedRule := some allow
      expired := kept.expiredDeny
      reason := s!"{address.text} is inside {allow.cidr}, which is on the allow list" }
  | none, none => {
      blocked := false
      decision := none
      matchedRule := none
      expired := kept.expiredDeny
      reason := s!"no IP rule matches {address.text}" }

/-- Decide one address against the rules. -/
def evaluate (ipnet : Ipnet Net) (rules : List IpRule) (address : Option IpAddr) (now : Instant) :
    IpVerdict :=
  match address with
  | none => {
      blocked := false
      decision := none
      matchedRule := none
      expired := none
      reason := "the request carried no client address, so no IP rule could be applied" }
  | some address => (rules.foldl (KeptRules.visit ipnet address now) {}).verdict address

/-! ### Which rules decide -/

variable (ipnet : Ipnet Net) (address : IpAddr) (now : Instant)

/-- A deny rule that has not expired and contains the address. -/
def denies (rule : IpRule) : Bool :=
  rule.contains ipnet address && !rule.isExpired now && rule.kind = .deny

/-- An allow rule that has not expired and contains the address. -/
def allows (rule : IpRule) : Bool :=
  rule.contains ipnet address && !rule.isExpired now && rule.kind = .allow

/-- A deny rule that contains the address, and has expired. -/
def deniedBefore (rule : IpRule) : Bool :=
  rule.contains ipnet address && rule.isExpired now && rule.kind = .deny

theorem foldl_visit (rules : List IpRule) (kept : KeptRules) :
    rules.foldl (KeptRules.visit ipnet address now) kept = {
      deny := kept.deny.or (rules.find? (denies ipnet address now))
      allow := kept.allow.or (rules.find? (allows ipnet address now))
      expiredDeny := kept.expiredDeny.or (rules.find? (deniedBefore ipnet address now)) } := by
  induction rules generalizing kept with
  | nil => simp
  | cons rule rules ih =>
    rw [List.foldl_cons, ih]
    by_cases hin : rule.contains ipnet address = true
    · by_cases hexpired : rule.isExpired now = true
      · cases hkind : rule.kind <;>
          simp [KeptRules.visit, denies, allows, deniedBefore, hin, hexpired, hkind]
      · cases hkind : rule.kind <;>
          simp [KeptRules.visit, denies, allows, deniedBefore, hin, hexpired, hkind]
    · simp [KeptRules.visit, denies, allows, deniedBefore, hin]

theorem evaluate_eq (rules : List IpRule) :
    evaluate ipnet rules (some address) now = KeptRules.verdict {
      deny := rules.find? (denies ipnet address now)
      allow := rules.find? (allows ipnet address now)
      expiredDeny := rules.find? (deniedBefore ipnet address now) } address := by
  rw [evaluate, foldl_visit]
  rfl

/-- **When the order cannot matter**: no two different deny rules decide, nor two different
allow rules where no deny does, and no two different deny rules have expired. -/
structure Clear (rules : List IpRule) : Prop where
  deny : Unambiguous (denies ipnet address now) rules
  allow : (∀ rule ∈ rules, denies ipnet address now rule = false) →
    Unambiguous (allows ipnet address now) rules
  expired : Unambiguous (deniedBefore ipnet address now) rules

variable {ipnet address now} {kept kept' : KeptRules} {rules : List IpRule}

theorem verdict_blocked : (kept.verdict address).blocked = kept.deny.isSome := by
  obtain ⟨deny, allow, expired⟩ := kept
  cases deny <;> cases allow <;> rfl

theorem verdict_matchedRule : (kept.verdict address).matchedRule = kept.deny.or kept.allow := by
  obtain ⟨deny, allow, expired⟩ := kept
  cases deny <;> cases allow <;> rfl

theorem verdict_expired : (kept.verdict address).expired = kept.expiredDeny := by
  obtain ⟨deny, allow, expired⟩ := kept
  cases deny <;> cases allow <;> rfl

theorem verdict_congr (hdeny : kept.deny = kept'.deny) (hallow : kept.deny = none → kept.allow = kept'.allow)
    (hexpired : kept.expiredDeny = kept'.expiredDeny) : kept.verdict address = kept'.verdict address := by
  obtain ⟨deny, allow, expired⟩ := kept
  obtain ⟨deny', allow', expired'⟩ := kept'
  obtain rfl : deny = deny' := hdeny
  obtain rfl : expired = expired' := hexpired
  cases deny with
  | some rule => rfl
  | none =>
    obtain rfl : allow = allow' := hallow rfl
    rfl

theorem blocked_iff :
    (evaluate ipnet rules (some address) now).blocked = true ↔
      ∃ rule ∈ rules, rule.kind = .deny ∧ rule.isExpired now = false ∧ rule.contains ipnet address = true := by
  rw [evaluate_eq, verdict_blocked, List.find?_isSome]
  refine exists_congr fun rule => and_congr_right fun _ => ?_
  simp only [denies, Bool.and_eq_true, Bool.not_eq_true', decide_eq_true_eq]
  tauto

/-- The verdict is the same in every order just when the order cannot matter. -/
theorem evaluate_perm_iff :
    (∀ rules', rules'.Perm rules →
      evaluate ipnet rules' (some address) now = evaluate ipnet rules (some address) now) ↔
    Clear ipnet address now rules := by
  simp only [evaluate_eq]
  constructor
  · intro h
    have hfound : ∀ rules' : List IpRule, rules'.Perm rules →
        (rules'.find? (denies ipnet address now)).or (rules'.find? (allows ipnet address now)) =
          (rules.find? (denies ipnet address now)).or (rules.find? (allows ipnet address now)) := by
      intro rules' hperm
      have hmatched := congrArg IpVerdict.matchedRule (h rules' hperm)
      rwa [verdict_matchedRule, verdict_matchedRule] at hmatched
    refine ⟨?_, fun hnone => ?_, ?_⟩
    · intro a ha b hb hdenies hdenies'
      -- Whichever of the two comes first is the rule named.
      obtain ⟨la, hla, hfa⟩ := exists_perm_find? ha hdenies
      obtain ⟨lb, hlb, hfb⟩ := exists_perm_find? hb hdenies'
      have heq := (hfound la hla).trans (hfound lb hlb).symm
      rw [hfa, hfb, Option.some_or, Option.some_or] at heq
      exact Option.some.inj heq
    · refine find?_perm_iff.mp fun rules' hperm => ?_
      have hnone' : ∀ {l : List IpRule}, l.Perm rules → l.find? (denies ipnet address now) = none :=
        fun hl => List.find?_eq_none.mpr fun rule hrule => by simp [hnone rule (hl.subset hrule)]
      have heq := hfound rules' hperm
      rwa [hnone' hperm, hnone' (List.Perm.refl rules), Option.none_or, Option.none_or] at heq
    · refine find?_perm_iff.mp fun rules' hperm => ?_
      have hexpired := congrArg IpVerdict.expired (h rules' hperm)
      rwa [verdict_expired, verdict_expired] at hexpired
  · intro h rules' hperm
    refine verdict_congr (find?_eq_of_perm h.deny hperm) (fun hnone => ?_) (find?_eq_of_perm h.expired hperm)
    refine find?_eq_of_perm (h.allow fun rule hrule => ?_) hperm
    simpa using List.find?_eq_none.mp hnone rule (hperm.symm.subset hrule)

/-- **The verdict** is the same in every order of the rules, and blocks an address just when a
deny rule that has not expired contains it, exactly when the order cannot matter. -/
theorem evaluate_order_iff (ipnet : Ipnet Net) (rules : List IpRule) (address : Option IpAddr)
    (now : Instant) :
    ((∀ rules', rules'.Perm rules → evaluate ipnet rules' address now = evaluate ipnet rules address now) ∧
      ∀ a, address = some a → ((evaluate ipnet rules address now).blocked = true ↔
        ∃ rule ∈ rules, rule.kind = .deny ∧ rule.isExpired now = false ∧ rule.contains ipnet a = true)) ↔
    ∀ a, address = some a → Clear ipnet a now rules := by
  cases address with
  | none => simp [evaluate]
  | some address =>
    simp only [Option.some.injEq, forall_eq']
    rw [evaluate_perm_iff]
    exact and_iff_left blocked_iff

/-! ### Two rules that contain an address -/

/-- The networks of the example, read. -/
def exampleNets : String → Option IpNet
  | "203.0.113.0/24" => some (.v4 0xcb007100#32 24)
  | "203.0.113.7/32" => some (.v4 0xcb007107#32 32)
  | _ => none

/-- The deny rule of a whole network. -/
def broadRule : IpRule where
  id := 1
  kind := .deny
  cidr := "203.0.113.0/24"
  note := "migration"
  createdBy := none
  createdAt := 0
  expiresAt := none

/-- The deny rule of one address in it. -/
def narrowRule : IpRule := { broadRule with id := 2, cidr := "203.0.113.7/32", note := "incident" }

/-- Of two deny rules that contain an address the first is named. -/
theorem named_by_order :
    let verdict (rules : List IpRule) := evaluate (IpNet.crate exampleNets) rules (some (.v4 0xcb007107#32)) 0
    (verdict [broadRule, narrowRule]).matchedRule = some broadRule ∧
      (verdict [narrowRule, broadRule]).matchedRule = some narrowRule ∧
      [broadRule, narrowRule].Perm [narrowRule, broadRule] ∧ broadRule ≠ narrowRule := by
  refine ⟨by decide, by decide, List.Perm.swap .., by decide⟩

end Omnion.Security
