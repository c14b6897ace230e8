import Omnion.Identity.SamlBinding
import Omnion.Identity.Validity

/-!
# The validity window of an assertion

`check_timestamps` of `crates/identity/src/sso/saml.rs`. A bound is the number that `i64` reads
from its attribute; an attribute that it does not read counts as no bound, though not as no
attribute.

## What is proved

* `checkTimestamps_right_iff` — when an assertion is accepted only with an expiry that was read
  and a clock in the window of all bounds it carries.
* `dated_accepted` — an assertion with the dates of SAML, accepted long after both.
-/

namespace Omnion.Identity.Saml

open Checked Validity

/-- Clock skew tolerated when an assertion's window is checked, in seconds. -/
def clockSkewSeconds : ℤ := 120

/-- A bound as the check reads it. -/
def bound (platform : Platform) (conditions : Markup) (name : String) : Option ℤ :=
  (attr platform conditions name).bind parseI64

/-- Check `Conditions/NotBefore` and `NotOnOrAfter`. -/
def checkTimestamps (platform : Platform) (element : Markup) (now : ℤ) : Except (Halt String) Unit :=
  match findChild element "Conditions" with
  | none => .error (.refused "the assertion has no validity window")
  | some conditions => do
    begins clockSkewSeconds now "the assertion is not valid yet" (bound platform conditions "NotBefore")
    ends clockSkewSeconds now "the assertion has expired" (bound platform conditions "NotOnOrAfter")
    Checked.ensure (¬ (attr platform conditions "NotOnOrAfter" = none ∧ attr platform conditions "NotBefore" = none))
      "the assertion has no validity window"

/-! ### What is to be accepted -/

variable {platform : Platform} {element conditions : Markup} {now : ℤ}

/-- A bound stands in the tag, with whatever value. -/
def Stated (platform : Platform) (conditions : Markup) (name : String) : Prop :=
  ∃ value, platform.attributes (tagOf conditions) name = some value

/-- The assertion carries an expiry, its bounds are read, and the clock is in their window. -/
structure InWindow (platform : Platform) (conditions : Markup) (now : ℤ) : Prop where
  notOnOrAfter : ∃ stop, bound platform conditions "NotOnOrAfter" = some stop ∧ now ≤ stop + clockSkewSeconds
  /-- It is valid already, if it says from when on. -/
  notBefore : Stated platform conditions "NotBefore" →
    ∃ start, bound platform conditions "NotBefore" = some start ∧ start - clockSkewSeconds ≤ now

/-- Only an assertion in its window is accepted. -/
def WindowKept (platform : Platform) (element : Markup) (now : ℤ) : Prop :=
  checkTimestamps platform element now = .ok () →
    ∃ conditions, findChild element "Conditions" = some conditions ∧ InWindow platform conditions now

/-- The bounds an assertion carries are read as far as it takes. -/
inductive Settled (platform : Platform) (conditions : Markup) (now : ℤ) : Prop
  /-- Neither is there with a value that is not blank. -/
  | windowless (hstop : attr platform conditions "NotOnOrAfter" = none)
      (hstart : attr platform conditions "NotBefore" = none)
  /-- A beginning that is read is ahead of the clock, or next to the limits of `i64`. -/
  | early (start : ℤ) (hread : bound platform conditions "NotBefore" = some start)
      (h : now < start - clockSkewSeconds ∨ ¬ FitsI64 (start - clockSkewSeconds))
  /-- An end that is read is behind the clock, or next to the limits. -/
  | late (stop : ℤ) (hread : bound platform conditions "NotOnOrAfter" = some stop)
      (h : stop + clockSkewSeconds < now ∨ ¬ FitsI64 (stop + clockSkewSeconds))
  /-- An end is read, and a beginning if there is one. -/
  | read (hstop : bound platform conditions "NotOnOrAfter" ≠ none)
      (hstart : Stated platform conditions "NotBefore" → bound platform conditions "NotBefore" ≠ none)

theorem checkTimestamps_eq_ok : checkTimestamps platform element now = .ok () ↔
    ∃ conditions, findChild element "Conditions" = some conditions ∧
      (∀ start, bound platform conditions "NotBefore" = some start →
        FitsI64 (start - clockSkewSeconds) ∧ start - clockSkewSeconds ≤ now) ∧
      (∀ stop, bound platform conditions "NotOnOrAfter" = some stop →
        FitsI64 (stop + clockSkewSeconds) ∧ now ≤ stop + clockSkewSeconds) ∧
      ¬ (attr platform conditions "NotOnOrAfter" = none ∧ attr platform conditions "NotBefore" = none) := by
  unfold checkTimestamps
  split <;> simp [Fallible.check_bind_eq_ok, *]

/-- **The window is kept** just when the bounds are read as far as it takes. -/
theorem checkTimestamps_right_iff (platform : Platform) (element : Markup) (now : ℤ) :
    WindowKept platform element now ↔
      ∀ conditions, findChild element "Conditions" = some conditions → Settled platform conditions now := by
  constructor
  · intro hkept conditions hconditions
    by_contra hsettled
    have hstart : ∀ start, bound platform conditions "NotBefore" = some start →
        FitsI64 (start - clockSkewSeconds) ∧ start - clockSkewSeconds ≤ now := by
      intro start hread
      by_contra h
      refine hsettled (.early start hread ?_)
      by_cases hfits : FitsI64 (start - clockSkewSeconds)
      · exact .inl (Int.not_le.mp fun hle => h ⟨hfits, hle⟩)
      · exact .inr hfits
    have hstop : ∀ stop, bound platform conditions "NotOnOrAfter" = some stop →
        FitsI64 (stop + clockSkewSeconds) ∧ now ≤ stop + clockSkewSeconds := by
      intro stop hread
      by_contra h
      refine hsettled (.late stop hread ?_)
      by_cases hfits : FitsI64 (stop + clockSkewSeconds)
      · exact .inl (Int.not_le.mp fun hle => h ⟨hfits, hle⟩)
      · exact .inr hfits
    obtain ⟨found, hfound, hwindow⟩ := hkept (checkTimestamps_eq_ok.mpr ⟨conditions, hconditions, hstart, hstop,
      fun h => hsettled (.windowless h.1 h.2)⟩)
    obtain rfl : conditions = found := Option.some.inj (hconditions.symm.trans hfound)
    obtain ⟨stop, hread, -⟩ := hwindow.notOnOrAfter
    refine hsettled (.read (by simp [hread]) fun hcarried => ?_)
    obtain ⟨start, hstart, -⟩ := hwindow.notBefore hcarried
    simp [hstart]
  · intro hsettled haccepted
    obtain ⟨conditions, hconditions, hstart, hstop, hwindow⟩ := checkTimestamps_eq_ok.mp haccepted
    refine ⟨conditions, hconditions, ?_⟩
    cases hsettled conditions hconditions with
    | windowless hnostop hnostart => exact absurd ⟨hnostop, hnostart⟩ hwindow
    | early start hread h =>
      obtain ⟨hfits, hle⟩ := hstart start hread
      exact absurd h (by simp [hfits, hle])
    | late stop hread h =>
      obtain ⟨hfits, hle⟩ := hstop stop hread
      exact absurd h (by simp [hfits, hle])
    | read hreadstop hreadstart =>
      obtain ⟨stop, hread⟩ := Option.ne_none_iff_exists'.mp hreadstop
      refine ⟨⟨stop, hread, (hstop stop hread).2⟩, fun hcarried => ?_⟩
      obtain ⟨start, hbegin⟩ := Option.ne_none_iff_exists'.mp (hreadstart hcarried)
      exact ⟨start, hbegin, (hstart start hbegin).2⟩

/-- Conditions with the dates of SAML. -/
def dates : Markup :=
  .empty (spell "saml:Conditions NotBefore=\"2020-01-01T00:00:00Z\" NotOnOrAfter=\"2020-01-01T01:00:00Z\"")

/-- An assertion with these. -/
def dated : Markup := .element (spell "saml2:Assertion") [dates] (spell "saml2:Assertion")

theorem dated_accepted : ¬ WindowKept examplePlatform dated 4102444800 := by
  intro hkept
  have hchild : findChild dated "Conditions" = some dates := List.find?_cons_of_pos (by decide +kernel)
  have hunread : bound examplePlatform dates "NotOnOrAfter" = none := by decide +kernel
  obtain ⟨conditions, hfound, hwindow⟩ := hkept (by decide +kernel)
  obtain rfl : dates = conditions := Option.some.inj (hchild.symm.trans hfound)
  obtain ⟨stop, hread, -⟩ := hwindow.notOnOrAfter
  rw [hunread] at hread
  cases hread

end Omnion.Identity.Saml
