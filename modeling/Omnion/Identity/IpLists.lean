import Omnion.Core.NetText
import Omnion.Library.Checked

/-!
# The address lists of a policy

`Cidr` and `check_ip` of `crates/identity/src/security.rs`: which addresses may sign in.

## The model

A network carries a prefix no longer than its address. The masks are shifted as the code does, so
that a shift by the whole width would stop the check.

## What is proved

* `checkIp_exact` — which addresses are refused, in whatever order the lists are.
* `unknown_allowed` — a text that is no address gets past an allowlist, and the order of the
  denylist decides which entry is named.
-/

namespace Omnion.Identity

open Checked (Halt)

/-- A network an IP list entry names. -/
structure Cidr where
  address : IpAddr
  prefixLen : ℕ
  /-- It is no longer than the address. -/
  le : prefixLen ≤ address.width

namespace Cidr

/-- Parse `10.0.0.0/8`, `2001:db8::/32` or a bare address. The error is the text of
`IdentityError::InvalidNetwork`. -/
def parse (text : String) : Except String Cidr :=
  let text := (Text.trim text).toList
  let (address, length) :=
    match Text.splitOnce ['/'] text with
    | some (address, length) => (address, some length)
    | none => (text, none)
  match IpAddr.parse (Words.trim Text.isWhitespace address) with
  | none => .error s!"{Text.debug (String.ofList address)} is not an address"
  | some ip =>
    match length with
    | none => .ok ⟨ip, ip.width, Nat.le_refl _⟩
    | some length =>
      match Text.parseU8 (Words.trim Text.isWhitespace length) with
      | none => .error s!"prefix {Text.debug (String.ofList length)} is not a number"
      | some n =>
        if hle : n ≤ ip.width then .ok ⟨ip, n, hle⟩ else .error s!"prefix /{n} is larger than /{ip.width}"

/-- The network mask of a prefix length. -/
def mask (width prefixLen : ℕ) : Except (Halt Empty) (BitVec width) :=
  if prefixLen = 0 then .ok 0
  else do
    let amount ← Checked.sub width prefixLen
    Checked.shiftLeft (.allOnes width) amount

/-- `mask_u32`. -/
def maskU32 (prefixLen : ℕ) : Except (Halt Empty) (BitVec 32) := mask 32 prefixLen

/-- `mask_u128`. -/
def maskU128 (prefixLen : ℕ) : Except (Halt Empty) (BitVec 128) := mask 128 prefixLen

/-- Whether `ip` falls inside this network. -/
def contains (network : Cidr) (ip : IpAddr) : Except (Halt Empty) Bool :=
  match network.address, ip with
  | .v4 address, .v4 candidate => do
    let mask ← maskU32 network.prefixLen
    pure (address &&& mask = candidate &&& mask)
  | .v6 address, .v6 candidate => do
    let mask ← maskU128 network.prefixLen
    pure (address &&& mask = candidate &&& mask)
  | _, _ => pure false

/-- **What is read as a network** names one. -/
theorem parse_eq_ok {text : String} {network : Cidr} :
    parse text = .ok network ↔ IpAddr.Names text.toList network.address network.prefixLen := by
  obtain ⟨address, n, hle⟩ := network
  simp only [parse, Text.toList_trim]
  cases hsplit : Text.splitOnce ['/'] (Words.trim Text.isWhitespace text.toList) with
  | none =>
    rw [IpAddr.names_iff_of_none hsplit]
    dsimp only
    rw [Words.trim_trim]
    cases IpAddr.parse (Words.trim Text.isWhitespace text.toList) with
    | none => simp
    | some ip =>
      simp only [Except.ok.injEq, Cidr.mk.injEq, Option.some.injEq]
      exact and_congr_right fun h => by rw [h, eq_comm]
  | some parts =>
    obtain ⟨first, second⟩ := parts
    rw [IpAddr.names_iff_of_some hsplit]
    dsimp only
    cases IpAddr.parse (Words.trim Text.isWhitespace first) with
    | none => simp
    | some ip =>
      cases Text.parseU8 (Words.trim Text.isWhitespace second) with
      | none => simp
      | some m =>
        dsimp only
        split_ifs with hm
        · simp only [Except.ok.injEq, Cidr.mk.injEq, Option.some.injEq]
          exact and_congr_right fun _ => ⟨fun h => ⟨h, hle⟩, And.left⟩
        · simp only [Option.some.injEq, false_iff]
          rintro ⟨rfl, rfl, -⟩
          exact hm hle

theorem mask_eq {width n : ℕ} (hn : n ≤ width) : mask width n = .ok (Prefixes.mask width n) := by
  unfold mask
  split_ifs with hzero
  · simp [hzero, Prefixes.mask]
  · simp only [Checked.sub, if_pos hn, bind, Except.bind, Checked.shiftLeft]
    rw [if_pos (by omega), Prefixes.mask]

/-- **What a network contains.** -/
theorem contains_eq (network : Cidr) (ip : IpAddr) :
    network.contains ip = .ok (decide (network.address.SharePrefix network.prefixLen ip)) := by
  obtain ⟨address, n, hle⟩ := network
  cases address <;> cases ip
  case v4.v4 x y =>
    have hmask : n ≤ 32 := hle
    simp only [contains, maskU32, mask_eq hmask, bind, Except.bind, pure, Except.pure, IpAddr.SharePrefix]
    exact congrArg Except.ok (decide_eq_decide.mpr (Prefixes.and_mask_eq_iff hmask))
  case v6.v6 x y =>
    have hmask : n ≤ 128 := hle
    simp only [contains, maskU128, mask_eq hmask, bind, Except.bind, pure, Except.pure, IpAddr.SharePrefix]
    exact congrArg Except.ok (decide_eq_decide.mpr (Prefixes.and_mask_eq_iff hmask))
  all_goals rfl

end Cidr

/-! ### The lists -/

/-- What `check_ip` reads of a policy. -/
structure SecurityPolicy where
  /-- Networks allowed to sign in; empty means any address. -/
  ipAllowlist : List String
  ipDenylist : List String

/-- What the IP lists say about an address. -/
inductive IpVerdict where
  /-- The address may proceed to the next sign-in step. -/
  | allowed
  | denied (rule reason : String)
  deriving DecidableEq

namespace IpVerdict

/-- `is_denied`. -/
def isDenied : IpVerdict → Bool
  | allowed => false
  | denied .. => true

/-- The list that refused the address. -/
def reason? : IpVerdict → Option String
  | allowed => none
  | denied _ reason => some reason

end IpVerdict

/-- The first entry of a list that is read as a network the address is in. -/
def firstMatch (ip : IpAddr) : List String → Except (Halt Empty) (Option String)
  | [] => pure none
  | entry :: rest =>
    match Cidr.parse entry with
    | .ok network => do if ← network.contains ip then pure (some entry) else firstMatch ip rest
    | .error _ => firstMatch ip rest

/-- Evaluate the lists: deny wins, an empty allowlist means "any address". -/
def checkIp (policy : SecurityPolicy) : Option IpAddr → Except (Halt Empty) IpVerdict
  | none => pure .allowed
  | some ip => do
    match ← firstMatch ip policy.ipDenylist with
    | some entry => pure (.denied (Text.trim entry) "denylist")
    | none =>
      let allowlist := policy.ipAllowlist.filter fun entry => Text.trim entry ≠ ""
      if allowlist.isEmpty then pure .allowed
      else
        match ← firstMatch ip allowlist with
        | some _ => pure .allowed
        | none => pure (.denied (", ".intercalate policy.ipAllowlist) "allowlist")

/-! ### Which addresses are refused -/

variable {ip : IpAddr} {entry : String} {entries : List String} {policy policy' : SecurityPolicy}

/-- The entry is read as a network, and the address begins with its prefix. -/
def Covers (entry : String) (ip : IpAddr) : Prop :=
  ∃ network, Cidr.parse entry = .ok network ∧ network.address.SharePrefix network.prefixLen ip

namespace SecurityPolicy

/-- A denied network covers the address. -/
def Denied (policy : SecurityPolicy) (ip : IpAddr) : Prop := ∃ entry ∈ policy.ipDenylist, Covers entry ip

/-- There are allowed networks, and none covers the address. -/
def Excluded (policy : SecurityPolicy) (ip : IpAddr) : Prop :=
  (∃ entry ∈ policy.ipAllowlist, Text.trim entry ≠ "") ∧ ∀ entry ∈ policy.ipAllowlist, ¬ Covers entry ip

/-- Which list decides about an address. -/
inductive Decides (policy : SecurityPolicy) (ip : IpAddr) : Option String → Prop where
  | denylist : policy.Denied ip → Decides policy ip (some "denylist")
  | allowlist : ¬ policy.Denied ip → policy.Excluded ip → Decides policy ip (some "allowlist")
  | allowed : ¬ policy.Denied ip → ¬ policy.Excluded ip → Decides policy ip none

/-- The lists have the same entries, in any order. -/
structure Reordered (policy policy' : SecurityPolicy) : Prop where
  allowlist : policy.ipAllowlist.Perm policy'.ipAllowlist
  denylist : policy.ipDenylist.Perm policy'.ipDenylist

theorem Reordered.denied_iff (h : Reordered policy policy') : policy.Denied ip ↔ policy'.Denied ip :=
  exists_congr fun _ => and_congr_left' h.denylist.mem_iff

theorem Reordered.excluded_iff (h : Reordered policy policy') : policy.Excluded ip ↔ policy'.Excluded ip :=
  and_congr (exists_congr fun _ => and_congr_left' h.allowlist.mem_iff)
    (forall_congr' fun _ => imp_congr_left h.allowlist.mem_iff)

theorem Decides.unique {reason reason' : Option String} (h : policy.Decides ip reason)
    (h' : policy.Decides ip reason') :
    reason = reason' := by
  cases h <;> cases h' <;> first | rfl | contradiction

theorem Decides.reorder {reason : Option String} (hsame : Reordered policy policy') (h : policy.Decides ip reason) :
    policy'.Decides ip reason := by
  cases h with
  | denylist hdenied => exact .denylist (hsame.denied_iff.mp hdenied)
  | allowlist hdenied hexcluded => exact .allowlist (hsame.denied_iff.not.mp hdenied) (hsame.excluded_iff.mp hexcluded)
  | allowed hdenied hexcluded => exact .allowed (hsame.denied_iff.not.mp hdenied) (hsame.excluded_iff.not.mp hexcluded)

end SecurityPolicy

theorem exists_of_firstMatch (ip : IpAddr) (entries : List String) : ∃ found, firstMatch ip entries = .ok found ∧
    (found = none ↔ ∀ entry ∈ entries, ¬ Covers entry ip) := by
  induction entries with
  | nil => exact ⟨none, by rw [firstMatch]; rfl, by simp⟩
  | cons entry rest ih =>
    obtain ⟨found, hrest, hfound⟩ := ih
    rw [firstMatch]
    cases hparse : Cidr.parse entry with
    | error message => exact ⟨found, hrest, by simp [hfound, Covers, hparse]⟩
    | ok network =>
      simp only [Cidr.contains_eq, bind, Except.bind]
      by_cases hin : network.address.SharePrefix network.prefixLen ip
      · exact ⟨some entry, by simp [hin, pure, Except.pure], by simp [Covers, hparse, hin]⟩
      · exact ⟨found, by simp [hin, hrest], by simp [hfound, Covers, hparse, hin]⟩

theorem ne_empty_of_covers (h : Covers entry ip) : Text.trim entry ≠ "" := by
  obtain ⟨network, hparse, -⟩ := h
  intro hempty
  have htrim := (Cidr.parse_eq_ok.mp hparse).trim_ne_nil
  rw [← Text.toList_trim, hempty] at htrim
  exact htrim rfl

theorem excluded_iff_filter : policy.Excluded ip ↔ (policy.ipAllowlist.filter fun entry => Text.trim entry ≠ "") ≠ [] ∧
    ∀ entry ∈ policy.ipAllowlist.filter fun entry => Text.trim entry ≠ "", ¬ Covers entry ip := by
  simp only [SecurityPolicy.Excluded, ne_eq, List.filter_eq_nil_iff, List.mem_filter, decide_eq_true_eq,
    not_forall, not_not,
    exists_prop]
  refine and_congr_right fun _ => forall_congr' fun entry => ⟨fun h hentry => h hentry.1, fun h hentry hcovers => ?_⟩
  exact h ⟨hentry, ne_empty_of_covers hcovers⟩ hcovers

/-- **A known address**: which list decides about it. -/
theorem exists_verdict (policy : SecurityPolicy) (ip : IpAddr) :
    ∃ verdict, checkIp policy (some ip) = .ok verdict ∧ policy.Decides ip verdict.reason? := by
  obtain ⟨found, hfirst, hfound⟩ := exists_of_firstMatch ip policy.ipDenylist
  simp only [checkIp, hfirst, bind, Except.bind]
  cases found with
  | some entry =>
    have hdenied : policy.Denied ip := by simpa [SecurityPolicy.Denied] using hfound
    exact ⟨_, rfl, .denylist hdenied⟩
  | none =>
    have hdenied : ¬ policy.Denied ip := fun ⟨entry, hentry, hcovers⟩ => hfound.mp rfl entry hentry hcovers
    obtain ⟨found, hallow, hallowed⟩ := exists_of_firstMatch ip
      (policy.ipAllowlist.filter fun entry => Text.trim entry ≠ "")
    dsimp only
    rw [hallow]
    split_ifs with hblank
    · exact ⟨_, rfl, .allowed hdenied fun h => (excluded_iff_filter.mp h).1 (List.isEmpty_iff.mp hblank)⟩
    · cases found with
      | some entry =>
        exact ⟨_, rfl, .allowed hdenied fun h => Option.some_ne_none entry (hallowed.mpr (excluded_iff_filter.mp h).2)⟩
      | none =>
        exact ⟨_, rfl, .allowlist hdenied (excluded_iff_filter.mpr
          ⟨fun h => hblank (List.isEmpty_iff.mpr h), hallowed.mp rfl⟩)⟩

theorem isDenied_iff_of_decides {verdict : IpVerdict} (h : policy.Decides ip verdict.reason?) :
    verdict.isDenied = true ↔ policy.Denied ip ∨ policy.Excluded ip := by
  cases verdict with
  | allowed => cases h with
    | allowed hdenied hexcluded => exact iff_of_false (by decide) (not_or.mpr ⟨hdenied, hexcluded⟩)
  | denied rule reason =>
    refine iff_of_true rfl ?_
    generalize hreason : IpVerdict.reason? (.denied rule reason) = found at h
    cases h with
    | denylist hdenied => exact .inl hdenied
    | allowlist _ hexcluded => exact .inr hexcluded
    | allowed _ _ => cases hreason

/-- **The address lists.** A text that is no address is let pass, as an unknown one; an address is
refused just when a denied network covers it, or there are allowed ones and none does; and in
every order of the lists the same list decides. -/
theorem checkIp_exact (policy : SecurityPolicy) (text : List Char) :
    (∀ ip, IpAddr.parse text = some ip → ∃ verdict, checkIp policy (IpAddr.parse text) = .ok verdict ∧
      (verdict.isDenied = true ↔ policy.Denied ip ∨ policy.Excluded ip)) ∧
    (IpAddr.parse text = none → checkIp policy (IpAddr.parse text) = .ok .allowed) ∧
    (∀ network : Cidr, ∀ ip,
      network.contains ip = .ok (decide (network.address.SharePrefix network.prefixLen ip))) ∧
    ∀ policy', policy.Reordered policy' → ∃ verdict verdict', checkIp policy (IpAddr.parse text) = .ok verdict ∧
      checkIp policy' (IpAddr.parse text) = .ok verdict' ∧ verdict.reason? = verdict'.reason? := by
  refine ⟨fun ip hip => ?_, fun hnone => by rw [hnone]; rfl, Cidr.contains_eq, fun policy' hsame => ?_⟩
  · obtain ⟨verdict, hverdict, hdecides⟩ := exists_verdict policy ip
    exact ⟨verdict, hip ▸ hverdict, isDenied_iff_of_decides hdecides⟩
  · cases IpAddr.parse text with
    | none => exact ⟨.allowed, .allowed, rfl, rfl, rfl⟩
    | some ip =>
      obtain ⟨verdict, hverdict, hdecides⟩ := exists_verdict policy ip
      obtain ⟨verdict', hverdict', hdecides'⟩ := exists_verdict policy' ip
      exact ⟨verdict, verdict', hverdict, hverdict', (hdecides.reorder hsame).unique hdecides'⟩

/-- The text is an address, and the network covers it. -/
def Lies (text : List Char) (entry : String) : Prop := ∃ ip, IpAddr.parse text = some ip ∧ Covers entry ip

/-- An allowlist, and a text that is no address; and two denied networks, one in the other. -/
theorem unknown_allowed :
    (¬ ∀ policy text, ∃ verdict, checkIp policy (IpAddr.parse text) = .ok verdict ∧
      (verdict.isDenied = true ↔ (∃ entry ∈ policy.ipDenylist, Lies text entry) ∨
        (∃ entry ∈ policy.ipAllowlist, Text.trim entry ≠ "") ∧ ∀ entry ∈ policy.ipAllowlist, ¬ Lies text entry)) ∧
    ¬ ∀ policy policy' text, policy.Reordered policy' →
      checkIp policy (IpAddr.parse text) = checkIp policy' (IpAddr.parse text) := by
  constructor
  · intro h
    obtain ⟨verdict, hverdict, hdenied⟩ := h ⟨["10.0.0.0/8"], []⟩ "unknown".toList
    have hnone : IpAddr.parse "unknown".toList = none := by decide +kernel
    have hlies : ∀ entry, ¬ Lies "unknown".toList entry := fun entry ⟨ip, hip, _⟩ => by
      rw [hnone] at hip
      cases hip
    rw [hnone] at hverdict
    cases hverdict
    have hentry : Text.trim "10.0.0.0/8" ≠ "" := by decide +kernel
    exact absurd (hdenied.mpr (.inr ⟨⟨_, List.mem_singleton_self _, hentry⟩, fun entry _ => hlies entry⟩)) (by decide)
  · intro h
    have hswap := h ⟨[], ["10.0.0.0/8", "10.1.0.0/16"]⟩ ⟨[], ["10.1.0.0/16", "10.0.0.0/8"]⟩ "10.1.2.3".toList
      ⟨.refl _, .swap ..⟩
    exact absurd hswap (by decide +kernel)

end Omnion.Identity
