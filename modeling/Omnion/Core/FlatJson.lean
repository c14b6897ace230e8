import Mathlib.Algebra.GroupWithZero.Nat
import Mathlib.Algebra.Ring.Int.Defs
import Omnion.Core.Json
import Omnion.Core.JsonText

/-!
# Flat JSON objects

The text of an object whose values are strings, integers of 64 bits and `true`, as far as it is written without blanks
and without other escapes than those of quotes and backslashes, is read back (`readObject_write`).
-/

namespace Omnion.FlatJson

/-- One more character before the rest of a string. -/
def push (c : Char) (found : Option (List Char × List Char)) : Option (List Char × List Char) :=
  found.map fun (s, rest) => (c :: s, rest)

/-- A string from behind its opening quote on, and what follows it. -/
def readString : List Char → Option (List Char × List Char)
  | [] => none
  | '"' :: rest => some ([], rest)
  | '\\' :: '"' :: text => push '"' (readString text)
  | '\\' :: '\\' :: text => push '\\' (readString text)
  | c :: text => if c = '\\' ∨ c.toNat < 0x20 then none else push c (readString text)

/-- The digits of a number, without a zero before others, and what follows them. -/
def readDigits (text : List Char) : Option (ℕ × List Char) :=
  match text.takeWhile Char.isDigit with
  | [] => none
  | '0' :: _ :: _ => none
  | digits => some (Nat.ofDigitChars 10 digits 0, text.dropWhile Char.isDigit)

/-- A number, and what follows it, when it is an integer of 64 bits, signed or unsigned. -/
def readInt (negative : Bool) (text : List Char) : Option (Json × List Char) :=
  match readDigits text with
  | some (n, rest) =>
    if negative then if 0 < n ∧ n ≤ 2 ^ 63 then some (.number (.int (-n)), rest) else none
    else if n < 2 ^ 64 then some (.number (.int n), rest) else none
  | none => none

/-- A value, and what follows it. -/
def readScalar : List Char → Option (Json × List Char)
  | '"' :: text => (readString text).map fun (s, rest) => (.string (String.ofList s), rest)
  | 't' :: 'r' :: 'u' :: 'e' :: rest => some (.bool true, rest)
  | '-' :: text => readInt true text
  | text => readInt false text

/-- A key and its value, and what follows them. -/
def readMember : List Char → Option ((String × Json) × List Char)
  | '"' :: text =>
    match readString text with
    | some (key, ':' :: text) => (readScalar text).map fun (v, rest) => ((String.ofList key, v), rest)
    | _ => none
  | _ => none

/-- So many members at most, to the end of the object. -/
def readMembers : ℕ → List Char → Option (List (String × Json))
  | 0, _ => none
  | n + 1, text =>
    match readMember text with
    | some (m, ',' :: rest) => (readMembers n rest).map (m :: ·)
    | some (m, ['}']) => some [m]
    | _ => none

def readObject : List Char → Option (List (String × Json))
  | ['{', '}'] => some []
  | '{' :: text => readMembers text.length text
  | _ => none

/-! ### What is written is read -/

variable {s rest text : List Char} {v : Json}

theorem escape_of_plain {c : Char} (hcontrol : ¬ c.toNat < 0x20) (hquote : c ≠ '"') (hslash : c ≠ '\\') :
    JsonText.escape c = [c] := by
  have hne : ∀ n < 0x20, c.toNat ≠ n := fun n hn h => hcontrol (h ▸ hn)
  have hchar : ∀ d : Char, d.toNat < 0x20 → c ≠ d := fun d hd h => hcontrol (h ▸ hd)
  simp only [JsonText.escape, if_neg hquote, if_neg hslash, if_neg (hne 0x08 (by decide)),
    if_neg (hne 0x0c (by decide)),
    if_neg (hchar '\n' (by decide)), if_neg (hchar '\r' (by decide)), if_neg (hchar '\t' (by decide)), if_neg hcontrol]

/-- A string without control characters is read back. -/
theorem readString_write (h : ∀ c ∈ s, ¬ c.toNat < 0x20) :
    readString (s.flatMap JsonText.escape ++ '"' :: rest) = some (s, rest) := by
  induction s with
  | nil => rfl
  | cons c s ih =>
    rw [List.forall_mem_cons] at h
    have hs := ih h.2
    rw [List.flatMap_cons, List.append_assoc]
    by_cases hquote : c = '"'
    · subst hquote
      rw [show JsonText.escape '"' = ['\\', '"'] from rfl, List.cons_append, List.cons_append,
        List.nil_append, readString,
        hs]
      rfl
    by_cases hslash : c = '\\'
    · subst hslash
      rw [show JsonText.escape '\\' = ['\\', '\\'] from rfl, List.cons_append, List.cons_append, List.nil_append,
        readString, hs]
      rfl
    rw [escape_of_plain h.1 hquote hslash, List.cons_append, List.nil_append, readString]
    · rw [if_neg (not_or.mpr ⟨hslash, h.1⟩), hs]
      rfl
    all_goals simp_all

/-- The text stands for the value, before a comma or the end of the object. -/
def Writes (text : List Char) (v : Json) : Prop :=
  ∀ rest, (∀ c ∈ rest.head?, c = ',' ∨ c = '}') → readScalar (text ++ rest) = some (v, rest)

theorem writes_string (h : ∀ c ∈ s, ¬ c.toNat < 0x20) :
    Writes ('"' :: (s.flatMap JsonText.escape ++ ['"'])) (.string (String.ofList s)) := by
  intro rest _
  rw [List.cons_append, List.append_assoc, readScalar, List.singleton_append, readString_write h]
  rfl

theorem writes_true : Writes ['t', 'r', 'u', 'e'] (.bool true) := fun _ _ => rfl

theorem toDigits_ne_zero_cons (n : ℕ) (c : Char) (digits : List Char) : Nat.toDigits 10 n ≠ '0' :: c :: digits := by
  have hzero : ∀ n : ℕ, (Nat.toDigits 10 n).head? = some '0' → n = 0 := by
    intro n
    induction n using Nat.strongRecOn with
    | ind n ih =>
      intro hhead
      rw [Nat.toDigits_eq_if (by decide)] at hhead
      split_ifs at hhead with hlt
      · have hall : ∀ n < 10, n.digitChar = '0' → n = 0 := by decide
        exact hall n hlt (by simpa using hhead)
      · rw [List.head?_append_of_ne_nil _ Nat.toDigits_ne_nil] at hhead
        have hten := ih (n / 10) (by omega) hhead
        omega
  intro h
  obtain rfl := hzero n (by rw [h]; rfl)
  exact absurd h (by simp [Nat.toDigits_zero])

theorem readDigits_write (n : ℕ) (h : ∀ c ∈ rest.head?, c = ',' ∨ c = '}') :
    readDigits (Nat.toDigits 10 n ++ rest) = some (n, rest) := by
  have hdigits : ∀ c ∈ Nat.toDigits 10 n, c.isDigit = true := fun c hc =>
    Nat.isDigit_of_mem_toDigits (by decide) (by decide) hc
  have htake : rest.takeWhile Char.isDigit = [] ∧ rest.dropWhile Char.isDigit = rest := by
    cases rest with
    | nil => exact ⟨rfl, rfl⟩
    | cons c rest =>
      have hc : ¬ c.isDigit = true := by
        rcases h c rfl with rfl | rfl <;> decide
      exact ⟨List.takeWhile_cons_of_neg hc, List.dropWhile_cons_of_neg hc⟩
  have hspan : (Nat.toDigits 10 n ++ rest).takeWhile Char.isDigit = Nat.toDigits 10 n := by
    rw [List.takeWhile_append_of_pos hdigits, htake.1, List.append_nil]
  have hdrop : (Nat.toDigits 10 n ++ rest).dropWhile Char.isDigit = rest := by
    rw [List.dropWhile_append_of_pos hdigits, htake.2]
  unfold readDigits
  rw [hspan, hdrop]
  split
  · rename_i hnil
    exact absurd hnil Nat.toDigits_ne_nil
  · rename_i c digits hzero
    exact absurd hzero (toDigits_ne_zero_cons n c digits)
  · rw [Nat.ofDigitChars_ten_toDigits]

theorem readScalar_of_digit {c : Char} (hc : c.isDigit = true) (text : List Char) :
    readScalar (c :: text) = readInt false (c :: text) := by
  rw [readScalar]
  all_goals
    intro rest heq
    rw [(List.cons.inj heq).1] at hc
    exact absurd hc (by decide)

/-- An integer of 64 bits. -/
def IsWord (n : ℤ) : Prop := -2 ^ 63 ≤ n ∧ n < 2 ^ 64

theorem writes_int {n : ℤ} (hword : IsWord n) : Writes (JsonText.int n) (.number (.int n)) := by
  intro rest h
  obtain ⟨hlow, hhigh⟩ := hword
  cases n with
  | ofNat n =>
    rw [JsonText.int]
    obtain ⟨c, digits, hdigits⟩ := List.exists_cons_of_ne_nil (Nat.toDigits_ne_nil (n := n) (b := 10))
    have hc : c.isDigit = true := Nat.isDigit_of_mem_toDigits (by decide) (by decide) (hdigits ▸ List.mem_cons_self)
    have hread := readDigits_write n h
    rw [hdigits, List.cons_append] at hread ⊢
    rw [readScalar_of_digit hc, readInt, hread]
    dsimp only
    rw [if_neg (by decide), if_pos (Int.ofNat_lt.mp hhigh)]
    rfl
  | negSucc n =>
    rw [JsonText.int, List.cons_append, readScalar, readInt, readDigits_write (n + 1) h]
    dsimp only
    rw [if_pos rfl, if_pos ⟨Nat.succ_pos n, by omega⟩]
    rfl

/-- A key without control characters, a colon, and the text of a value. -/
def member (key : String) (text : List Char) : List Char := JsonText.string key ++ ':' :: text

theorem readMember_write {key : String} (hkey : ∀ c ∈ key.toList, ¬ c.toNat < 0x20) (hv : Writes text v)
    (hrest : ∀ c ∈ rest.head?, c = ',' ∨ c = '}') :
    readMember (member key text ++ rest) = some ((key, v), rest) := by
  have hstring : member key text ++ rest =
      '"' :: (key.toList.flatMap JsonText.escape ++ '"' :: (':' :: (text ++ rest))) := by
    simp [member, JsonText.string]
  rw [hstring, readMember, readString_write hkey]
  simp only [hv rest hrest, Option.map_some, String.ofList_toList]

/-- A key, the text of a value, and the value. -/
structure Written where
  key : String
  text : List Char
  value : Json

/-- What the text of a member is to be. -/
def Written.Sound (w : Written) : Prop := (∀ c ∈ w.key.toList, ¬ c.toNat < 0x20) ∧ Writes w.text w.value

theorem readMembers_write {members : List Written} (hne : members ≠ []) (h : ∀ w ∈ members, w.Sound) {n : ℕ}
    (hn : members.length ≤ n) :
    readMembers n ([','].intercalate (members.map fun w => member w.key w.text) ++ ['}']) =
      some (members.map fun w => (w.key, w.value)) := by
  induction members generalizing n with
  | nil => exact absurd rfl hne
  | cons w members ih =>
    rw [List.forall_mem_cons] at h
    obtain ⟨n, rfl⟩ : ∃ m, n = m + 1 := Nat.exists_eq_succ_of_ne_zero (by rw [List.length_cons] at hn; omega)
    cases members with
    | nil =>
      rw [List.map_singleton, List.intercalate_singleton, readMembers,
        readMember_write h.1.1 h.1.2 (by simp)]
      rfl
    | cons w' members =>
      have hrest := ih (by simp) h.2 (Nat.le_of_succ_le_succ hn)
      have hjoin : [','].intercalate ((w :: w' :: members).map fun w => member w.key w.text) ++ ['}'] =
          member w.key w.text ++
            ',' :: ([','].intercalate ((w' :: members).map fun w => member w.key w.text) ++ ['}']) := by
        simp [List.intercalate_cons_cons]
      rw [hjoin, readMembers, readMember_write h.1.1 h.1.2 (by simp)]
      simp only [hrest, Option.map_some]
      rfl

theorem length_intercalate_le (parts : List (List Char)) : parts.length ≤ ([','].intercalate parts).length + 1 := by
  induction parts with
  | nil => simp
  | cons part parts ih =>
    cases parts with
    | nil => simp
    | cons part' parts =>
      rw [List.intercalate_cons_cons, List.length_append, List.length_append, List.length_cons, List.length_singleton]
      omega

/-- **What is written as an object is read as its members.** -/
theorem readObject_write {members : List Written} (h : ∀ w ∈ members, w.Sound) :
    readObject ('{' :: ([','].intercalate (members.map fun w => member w.key w.text) ++ ['}'])) =
      some (members.map fun w => (w.key, w.value)) := by
  cases members with
  | nil => rfl
  | cons w members =>
    have hlength := length_intercalate_le ((w :: members).map fun w => member w.key w.text)
    rw [List.length_map] at hlength
    have hread := readMembers_write (List.cons_ne_nil w members) h
      (n := ([','].intercalate ((w :: members).map fun w => member w.key w.text) ++ ['}']).length)
        (by simpa using hlength)
    rw [readObject]
    · exact hread
    · intro hend
      cases members <;> simp [member, JsonText.string, List.intercalate_cons_cons] at hend

end Omnion.FlatJson
