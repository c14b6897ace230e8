import Mathlib.Data.Fintype.Basic
import Mathlib.Tactic.FinCases
import Omnion.Library.Printing

/-!
# The text of JSON values

The compact text `serde_json` writes: strings with their escapes, integers, absent
values, arrays and objects. The text of a value can be told from what follows it
(`Printing.Readable`), so a text determines the value.
-/

namespace Omnion.JsonText

open Printing

/-- One character of a string, escaped where it has to be. -/
def escape (c : Char) : List Char :=
  if c = '"' then ['\\', '"']
  else if c = '\\' then ['\\', '\\']
  else if c.toNat = 0x08 then ['\\', 'b']
  else if c.toNat = 0x0c then ['\\', 'f']
  else if c = '\n' then ['\\', 'n']
  else if c = '\r' then ['\\', 'r']
  else if c = '\t' then ['\\', 't']
  else if c.toNat < 0x20 then ['\\', 'u', '0', '0', (c.toNat / 16).digitChar, (c.toNat % 16).digitChar]
  else [c]

/-- A string, in quotes. -/
def string (s : String) : List Char := '"' :: (s.toList.flatMap escape ++ ['"'])

def int (n : ℤ) : List Char :=
  match n with
  | .ofNat n => Nat.toDigits 10 n
  | .negSucc n => '-' :: Nat.toDigits 10 (n + 1)

/-- A string, or `null` when it is absent. -/
def optional : Option String → List Char
  | none => ['n', 'u', 'l', 'l']
  | some s => string s

/-- An array of values that are printed by `print`. -/
def array {α : Type*} (print : α → List Char) (items : List α) : List Char :=
  '[' :: separated ',' ']' print items

/-- An object, from its keys and the texts of their values. -/
def object (fields : List (String × List Char)) : List Char :=
  '\x7b' :: separated ',' '\x7d' (fun f => string f.1 ++ ':' :: f.2) fields

/-! ### The texts are readable -/

def hexValue (c : Char) : ℕ := if c.isDigit then c.toNat - 48 else c.toNat - 87

/-- Read one character of a string back. -/
def unescape : List Char → Option (Char × List Char)
  | '\\' :: 'u' :: _ :: _ :: high :: low :: s => some (Char.ofNat (16 * hexValue high + hexValue low), s)
  | '\\' :: 'b' :: s => some (Char.ofNat 0x08, s)
  | '\\' :: 'f' :: s => some (Char.ofNat 0x0c, s)
  | '\\' :: 'n' :: s => some ('\n', s)
  | '\\' :: 'r' :: s => some ('\r', s)
  | '\\' :: 't' :: s => some ('\t', s)
  | '\\' :: c :: s => some (c, s)
  | c :: s => some (c, s)
  | [] => none

theorem unescape_escape (c : Char) (s : List Char) : unescape (escape c ++ s) = some (c, s) := by
  by_cases hcontrol : c.toNat < 0x20
  · -- The control characters one by one.
    obtain ⟨n, hn⟩ : ∃ n : Fin 32, Char.ofNat n = c := ⟨⟨c.toNat, hcontrol⟩, Char.ofNat_toNat c⟩
    rw [← hn]
    fin_cases n <;> rfl
  · by_cases hquote : c = '"'
    · subst hquote
      rfl
    by_cases hslash : c = '\\'
    · subst hslash
      rfl
    have hplain : escape c = [c] := by
      have hne : ∀ n < 0x20, c.toNat ≠ n := fun n hn h => hcontrol (h ▸ hn)
      have hchar : ∀ d : Char, d.toNat < 0x20 → c ≠ d := fun d hd h => hcontrol (h ▸ hd)
      simp only [escape, if_neg hquote, if_neg hslash, if_neg (hne 0x08 (by decide)), if_neg (hne 0x0c (by decide)),
        if_neg (hchar '\n' (by decide)), if_neg (hchar '\r' (by decide)), if_neg (hchar '\t' (by decide)),
        if_neg hcontrol]
    rw [hplain, List.cons_append, List.nil_append]
    unfold unescape
    split <;> simp_all

theorem readable_escape : Readable (fun _ => True) escape := readable_of_reader unescape_escape

theorem escape_head (c : Char) : ∃ d l, escape c = d :: l ∧ True ∧ d ≠ '"' := by
  by_cases hquote : c = '"'
  · exact ⟨'\\', ['"'], by rw [escape, if_pos hquote], trivial, by decide⟩
  · unfold escape
    split_ifs <;> exact ⟨_, _, rfl, trivial, by first | decide | exact hquote⟩

theorem readable_string : Readable (fun _ => True) string := by
  have hchars := (readable_escape.many trivial escape_head).after ['"']
  exact hchars.comp fun _ _ h => String.toList_injective h

theorem readable_optional : Readable (fun _ => True) optional := by
  rintro (_ | a) (_ | b) s t hs ht heq
  · exact ⟨rfl, by simpa [optional] using heq⟩
  · simp [optional, string] at heq
  · simp [optional, string] at heq
  · exact (readable_string a b s t hs ht heq).imp_left (congrArg some)

theorem toDigits_injective : Function.Injective (Nat.toDigits 10) := by
  intro m n h
  rw [← Nat.ofDigitChars_ten_toDigits (n := m), h, Nat.ofDigitChars_ten_toDigits]

/-- The characters of an integer. -/
def IsNumeral (c : Char) : Prop := c.isDigit = true ∨ c = '-'

theorem isNumeral_int (n : ℤ) : ∀ c ∈ int n, IsNumeral c := by
  intro c hc
  cases n with
  | ofNat n => exact .inl (Nat.isDigit_of_mem_toDigits (by decide) (by decide) hc)
  | negSucc n =>
    rcases List.mem_cons.mp hc with rfl | hc
    · exact .inr rfl
    · exact .inl (Nat.isDigit_of_mem_toDigits (by decide) (by decide) hc)

theorem int_injective : Function.Injective int := by
  -- A negative number begins with a sign, which is no digit.
  have hsign : ∀ m n : ℕ, Nat.toDigits 10 m ≠ '-' :: Nat.toDigits 10 n := by
    intro m n h
    have hdigit : '-'.isDigit = true :=
      Nat.isDigit_of_mem_toDigits (b := 10) (n := m) (by decide) (by decide) (h ▸ List.mem_cons_self)
    exact absurd hdigit (by decide)
  rintro (m | m) (n | n) h
  · rw [toDigits_injective h]
  · exact absurd h (hsign _ _)
  · exact absurd h.symm (hsign _ _)
  · have := toDigits_injective (List.cons.inj h).2
    rw [Nat.add_right_cancel this]

/-- As `toString` writes it. -/
theorem toList_toString (n : ℤ) : (toString n).toList = int n := by
  cases n with
  | ofNat m => exact Nat.toList_repr
  | negSucc m =>
    rw [show toString (Int.negSucc m) = "-" ++ Nat.repr (m + 1) from rfl, String.toList_append, Nat.toList_repr]
    rfl

theorem readable_int : Readable (fun c => ¬ IsNumeral c) int :=
  readable_of_forall int_injective isNumeral_int

end Omnion.JsonText
