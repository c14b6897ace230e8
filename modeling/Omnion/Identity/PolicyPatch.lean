import Omnion.Identity.IpLists

/-!
# The check of a policy patch

`validate_patch` of `crates/identity/src/security.rs`, and the column type its lists are stored
with: an entry of the lists is cast to `cidr` as it was typed.

## What is proved

* `validatePatch_guards_iff` — when none is that the columns would refuse.
* `host_bits` — one that is.
-/

namespace Omnion.Identity

/-- `IdentityError::InvalidPolicy`. -/
structure InvalidPolicy where
  /-- The control the reader has to fix. -/
  field : String
  message : String
  deriving DecidableEq

/-- The fields a save may change; `none` leaves a field alone. -/
structure PolicyPatch where
  passwordMinLength : Option ℤ := none
  passwordRequireClasses : Option ℤ := none
  passwordHistory : Option ℤ := none
  passwordExpiryDays : Option ℤ := none
  lockoutAttempts : Option ℤ := none
  lockoutMinutes : Option ℤ := none
  ipAllowlist : Option (List String) := none
  ipDenylist : Option (List String) := none
  sessionIdleMinutes : Option ℤ := none
  sessionAbsoluteDays : Option ℤ := none
  sessionConcurrentMax : Option ℤ := none
  deviceTrustDays : Option ℤ := none

/-- Range check one optional integer field. -/
def range (value : Option ℤ) (field : String) (min max : ℤ) : Except InvalidPolicy Unit :=
  match value with
  | none => .ok ()
  | some value =>
    if value < min ∨ max < value then .error { field, message := s!"must be between {min} and {max}" } else .ok ()

/-- The entries of a list are networks, or blank. -/
def validateEntries (field : String) : List String → Except InvalidPolicy Unit
  | [] => .ok ()
  | entry :: rest =>
    let entry := Text.trim entry
    if entry = "" then validateEntries field rest
    else
      match Cidr.parse entry with
      | .ok _ => validateEntries field rest
      | .error message => .error { field, message := s!"{entry}: {message}" }

/-- A list, where the patch has one. -/
def validateList (field : String) (list : Option (List String)) : Except InvalidPolicy Unit :=
  match list with
  | none => .ok ()
  | some list => validateEntries field list

/-- Check every field of a patch against the range the table enforces. -/
def validatePatch (patch : PolicyPatch) : Except InvalidPolicy Unit := do
  range patch.passwordMinLength "password_min_length" 8 128
  range patch.passwordRequireClasses "password_require_classes" 1 4
  range patch.passwordHistory "password_history" 0 24
  range patch.passwordExpiryDays "password_expiry_days" 0 730
  range patch.lockoutAttempts "lockout_attempts" 3 50
  range patch.lockoutMinutes "lockout_minutes" 1 1440
  range patch.sessionIdleMinutes "session_idle_minutes" 5 10080
  range patch.sessionAbsoluteDays "session_absolute_days" 1 365
  range patch.sessionConcurrentMax "session_concurrent_max" 1 100
  range patch.deviceTrustDays "device_trust_days" 0 365
  validateList "ip_allowlist" patch.ipAllowlist
  validateList "ip_denylist" patch.ipDenylist

/-! ### What is let through -/

/-- The value, if there is one, is in the range. -/
def Within (min max : ℤ) (value : Option ℤ) : Prop := ∀ n ∈ value, min ≤ n ∧ n ≤ max

namespace PolicyPatch

/-- Every number is in its range. -/
structure InRange (patch : PolicyPatch) : Prop where
  passwordMinLength : Within 8 128 patch.passwordMinLength
  passwordRequireClasses : Within 1 4 patch.passwordRequireClasses
  passwordHistory : Within 0 24 patch.passwordHistory
  passwordExpiryDays : Within 0 730 patch.passwordExpiryDays
  lockoutAttempts : Within 3 50 patch.lockoutAttempts
  lockoutMinutes : Within 1 1440 patch.lockoutMinutes
  sessionIdleMinutes : Within 5 10080 patch.sessionIdleMinutes
  sessionAbsoluteDays : Within 1 365 patch.sessionAbsoluteDays
  sessionConcurrentMax : Within 1 100 patch.sessionConcurrentMax
  deviceTrustDays : Within 0 365 patch.deviceTrustDays

/-- What the lists of a patch hold. -/
def entries (patch : PolicyPatch) : List String := patch.ipAllowlist.getD [] ++ patch.ipDenylist.getD []

end PolicyPatch

/-- The entry is read as a network. -/
def IsNetwork (entry : String) : Prop := ∃ network, Cidr.parse entry = .ok network

variable {patch : PolicyPatch} {entry field : String} {entries : List String}

theorem range_eq_ok {value : Option ℤ} {min max : ℤ} : range value field min max = .ok () ↔ Within min max value := by
  cases value with
  | none => simp [range, Within]
  | some value =>
    simp only [range, Within, Option.mem_some_iff, forall_eq']
    split_ifs with h
    · exact iff_of_false (by simp) (by omega)
    · exact iff_of_true rfl (by omega)

theorem parse_trim (entry : String) : Cidr.parse (Text.trim entry) = Cidr.parse entry := by
  simp only [Cidr.parse, Text.trim_trim]

theorem validateEntries_eq_ok :
    validateEntries field entries = .ok () ↔ ∀ entry ∈ entries, Text.trim entry = "" ∨ IsNetwork entry := by
  induction entries with
  | nil => simp [validateEntries]
  | cons entry rest ih =>
    simp only [validateEntries, parse_trim, List.forall_mem_cons]
    by_cases hblank : Text.trim entry = ""
    · simp [hblank, ih]
    · cases hparse : Cidr.parse entry with
      | error message => simp [hblank, IsNetwork, hparse]
      | ok network => simp [hblank, IsNetwork, hparse, ih]

theorem validateList_eq_ok {list : Option (List String)} :
    validateList field list = .ok () ↔ ∀ entry ∈ list.getD [], Text.trim entry = "" ∨ IsNetwork entry := by
  cases list with
  | none => simp [validateList]
  | some list => exact validateEntries_eq_ok

/-- **What is let through.** -/
theorem validatePatch_eq_ok :
    validatePatch patch = .ok () ↔ patch.InRange ∧ ∀ entry ∈ patch.entries, Text.trim entry = "" ∨ IsNetwork entry := by
  simp only [validatePatch, Fallible.check_bind_eq_ok, range_eq_ok, validateList_eq_ok, PolicyPatch.entries,
    List.forall_mem_append]
  constructor
  · rintro ⟨h₁, h₂, h₃, h₄, h₅, h₆, h₇, h₈, h₉, h₁₀, hlists⟩
    exact ⟨⟨h₁, h₂, h₃, h₄, h₅, h₆, h₇, h₈, h₉, h₁₀⟩, hlists⟩
  · rintro ⟨⟨h₁, h₂, h₃, h₄, h₅, h₆, h₇, h₈, h₉, h₁₀⟩, hlists⟩
    exact ⟨h₁, h₂, h₃, h₄, h₅, h₆, h₇, h₈, h₉, h₁₀, hlists⟩

/-! ### What the columns take -/

/-- The input rule of the column type `cidr`: an address, or an address and the length of a prefix
with no bit set after it. -/
inductive CidrColumn : List Char → Prop where
  | address {text : List Char} {address : IpAddr} : IpAddr.parse text = some address → CidrColumn text
  | network {text length : List Char} {address : IpAddr} : IpAddr.parse text = some address → Text.Digits length →
      Text.decimal length ≤ address.width → address.Network (Text.decimal length) → CidrColumn (text ++ '/' :: length)

/-- The columns take what is let through, and what they do not take is refused. -/
def Guards (patch : PolicyPatch) : Prop :=
  (validatePatch patch = .ok () → ∀ entry ∈ patch.entries, CidrColumn entry.toList) ∧
    ∀ entry ∈ patch.entries, ¬ CidrColumn entry.toList → ∃ error, validatePatch patch = .error error

/-- A network with no bit set after its prefix, written without white space or a plus sign. -/
structure Plain (entry : String) : Prop where
  chars : ∀ c ∈ entry.toList, Text.isWhitespace c = false ∧ c ≠ '+'
  /-- No bit is set after the prefix. -/
  network : ∃ network, Cidr.parse entry = .ok network ∧ network.address.Network network.prefixLen

theorem CidrColumn.names {text : List Char} (h : CidrColumn text) :
    ∃ address n, IpAddr.Names text address n ∧ address.Network n ∧ n ≤ address.width := by
  cases h with
  | @address _ address haddress => exact ⟨address, _, .of_parse haddress, address.network_width, Nat.le_refl _⟩
  | @network _ _ address haddress hdigits hle hnetwork => exact ⟨address, _,
    .of_network haddress hdigits hle, hnetwork, hle⟩

theorem CidrColumn.chars {text : List Char} (h : CidrColumn text) :
    ∀ c ∈ text, Text.isWhitespace c = false ∧ c ≠ '+' := by
  have haddress : ∀ {part address}, IpAddr.parse part = some address → ∀ c ∈ part,
    Text.isWhitespace c = false ∧ c ≠ '+' :=
    fun hparse c hc => ⟨IpAddr.isWhitespace_of_parse hparse c hc,
      fun hplus => (IpAddr.notMem_of_parse hparse).2 (hplus ▸ hc)⟩
  cases h with
  | address hparse => exact haddress hparse
  | network hparse hdigits _ _ =>
    exact List.forall_mem_append.mpr ⟨haddress hparse, List.forall_mem_cons.mpr ⟨by decide, hdigits.chars⟩⟩

/-- **What the columns take.** -/
theorem cidrColumn_iff_plain : CidrColumn entry.toList ↔ Plain entry := by
  constructor
  · intro h
    obtain ⟨address, n, hnames, hnetwork, hle⟩ := h.names
    exact ⟨h.chars, ⟨address, n, hle⟩, Cidr.parse_eq_ok.mpr hnames, hnetwork⟩
  · rintro ⟨hchars, ⟨address, n, hle⟩, hparse, hnetwork⟩
    rcases (Cidr.parse_eq_ok.mp hparse).plain hchars with ⟨haddress, -⟩ | ⟨part, length, htext,
      haddress, hdigits, rfl, -⟩
    · exact .address haddress
    · rw [htext]
      exact .network haddress hdigits hle hnetwork

/-- **When the columns take all that is let through**: when a number is out of its range, or an entry
that is not blank is no network, or every entry is a plain one. -/
theorem validatePatch_guards_iff (patch : PolicyPatch) : Guards patch ↔
    ¬ patch.InRange ∨ (∃ entry ∈ patch.entries, Text.trim entry ≠ "" ∧ ¬ IsNetwork entry) ∨
      ∀ entry ∈ patch.entries, Plain entry := by
  have hrefused : validatePatch patch ≠ .ok () → ∃ error, validatePatch patch = .error error := by
    cases validatePatch patch with
    | error error => exact fun _ => ⟨error, rfl⟩
    | ok => exact fun h => absurd rfl h
  constructor
  · rintro ⟨hguards, -⟩
    by_cases hok : validatePatch patch = .ok ()
    · exact .inr (.inr fun entry hentry => cidrColumn_iff_plain.mp (hguards hok entry hentry))
    · rw [validatePatch_eq_ok, not_and_or] at hok
      refine hok.imp_right fun hentries => .inl ?_
      simpa only [not_forall, not_or, exists_prop] using hentries
  · intro h
    have hcolumn : validatePatch patch = .ok () → ∀ entry ∈ patch.entries, CidrColumn entry.toList := by
      intro hok
      obtain ⟨hrange, hentries⟩ := validatePatch_eq_ok.mp hok
      rcases h with hout | ⟨entry, hentry, hblank, hnot⟩ | hplain
      · exact absurd hrange hout
      · exact absurd (hentries entry hentry) (not_or.mpr ⟨hblank, hnot⟩)
      · exact fun entry hentry => cidrColumn_iff_plain.mpr (hplain entry hentry)
    exact ⟨hcolumn, fun entry hentry hnot => hrefused fun hok => hnot (hcolumn hok entry hentry)⟩

/-- `10.0.0.1/8` on the allowlist. -/
theorem host_bits : ¬ Guards { ipAllowlist := some ["10.0.0.1/8"] } := by
  rintro ⟨hguards, -⟩
  have hok : validatePatch { ipAllowlist := some ["10.0.0.1/8"] } = .ok () := by decide +kernel
  obtain ⟨address, n, hnames, hnetwork, -⟩ := (hguards hok "10.0.0.1/8" (by simp [PolicyPatch.entries])).names
  have hsplit : Text.splitOnce ['/'] (Words.trim Text.isWhitespace "10.0.0.1/8".toList) =
      some ("10.0.0.1".toList, "8".toList) := by decide +kernel
  have hread : IpAddr.Names "10.0.0.1/8".toList (.v4 0x0a000001#32) 8 :=
    (IpAddr.names_iff_of_some hsplit).mpr ⟨by decide +kernel, by decide +kernel, by decide⟩
  obtain ⟨rfl, rfl⟩ := hnames.unique hread
  exact absurd (hnetwork 31 (by decide)) (by decide)

end Omnion.Identity
