import Omnion.Core.Text
import Omnion.Library.Checked

/-!
# Windows of validity

How `crates/identity` compares the two ends of a window with the clock, in tokens of OpenID
Connect and in SAML assertions: each end is moved by the clock skew that is tolerated, in the
arithmetic of 64 bits.
-/

namespace Omnion.Validity

open Checked

variable {skew now : ℤ} {message : String} {bound : Option ℤ}

/-- The window begins: `from - skew > now` is refused. -/
def begins (skew now : ℤ) (message : String) : Option ℤ → Except (Halt String) Unit
  | none => .ok ()
  | some start => do
    let start ← i64 (start - skew)
    ensure (start ≤ now) message

/-- The window ends: `until + skew < now` is refused. -/
def ends (skew now : ℤ) (message : String) : Option ℤ → Except (Halt String) Unit
  | none => .ok ()
  | some stop => do
    let stop ← i64 (stop + skew)
    ensure (now ≤ stop) message

@[simp] theorem begins_eq_ok :
    begins skew now message bound = .ok () ↔ ∀ start, bound = some start → FitsI64 (start - skew) ∧
      start - skew ≤ now := by
  cases bound <;> simp [begins, Fallible.bind_eq_ok, and_assoc]

@[simp] theorem begins_eq_overflow :
    begins skew now message bound = .error .overflow ↔ ∃ start, bound = some start ∧ ¬ FitsI64 (start - skew) := by
  cases bound <;> simp [begins, bind_eq_overflow]

@[simp] theorem ends_eq_ok :
    ends skew now message bound = .ok () ↔ ∀ stop, bound = some stop → FitsI64 (stop + skew) ∧ now ≤ stop + skew := by
  cases bound <;> simp [ends, Fallible.bind_eq_ok, and_assoc]

@[simp] theorem ends_eq_overflow :
    ends skew now message bound = .error .overflow ↔ ∃ stop, bound = some stop ∧ ¬ FitsI64 (stop + skew) := by
  cases bound <;> simp [ends, bind_eq_overflow]

/-- `str::parse::<i64>`: digits, after a sign or none, of a number that fits. -/
def parseI64 (text : List Char) : Option ℤ :=
  let (negative, number) := match text with
    | '+' :: number => (false, number)
    | '-' :: number => (true, number)
    | number => (false, number)
  if number ≠ [] ∧ number.all Text.isAsciiDigit then
    let size := number.foldl (fun n c => n * 10 + (c.toNat - '0'.toNat)) 0
    let value : ℤ := if negative then -size else size
    if FitsI64 value then some value else none
  else none

end Omnion.Validity
