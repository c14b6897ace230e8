import Mathlib.Data.List.Basic
import Mathlib.Tactic.SplitIfs

/-!
# Lossy UTF-8

`String::from_utf8_lossy`: bytes are read one after the other, and what has been begun of a
character is kept. Where it cannot go on it becomes one U+FFFD, as does a byte that begins none.

## What is proved

* `fromUtf8Lossy_append_iff` — bytes that are cut in two are read the same just when the cut
  splits no character.
-/

namespace Omnion.Text

/-- What stands for bytes that are no character. -/
def REPLACEMENT_CHARACTER : Char := '\uFFFD'

/-- Bytes of a character, by its first one. -/
def charWidth (lead : UInt8) : ℕ := if lead.toNat < 0xE0 then 2 else if lead.toNat < 0xF0 then 3 else 4

/-- A byte of a character that is not its first one. -/
def isTail (byte : UInt8) : Bool := 0x80 ≤ byte.toNat && byte.toNat ≤ 0xBF

/-- Whether a byte goes on with a character that was begun. Behind some first bytes the next one is in a narrower
range: the others would be a longer form than needed, a surrogate or beyond the last character. -/
def goesOn (pending : List UInt8) (byte : UInt8) : Bool :=
  match pending with
  | [] => false
  | [lead] =>
    if lead.toNat = 0xE0 then 0xA0 ≤ byte.toNat && byte.toNat ≤ 0xBF
    else if lead.toNat = 0xED then 0x80 ≤ byte.toNat && byte.toNat ≤ 0x9F
    else if lead.toNat = 0xF0 then 0x90 ≤ byte.toNat && byte.toNat ≤ 0xBF
    else if lead.toNat = 0xF4 then 0x80 ≤ byte.toNat && byte.toNat ≤ 0x8F
    else isTail byte
  | _ => isTail byte

/-- The character of some bytes. -/
def charOf : List UInt8 → Char
  | [] => REPLACEMENT_CHARACTER
  | lead :: rest =>
    let bits := if lead.toNat < 0xE0 then 32 else if lead.toNat < 0xF0 then 16 else 8
    Char.ofNat (rest.foldl (fun n byte => n * 64 + byte.toNat % 64) (lead.toNat % bits))

/-- A byte where a character may begin: what it is read as, and what it begins. -/
def beginChar (byte : UInt8) : List Char × List UInt8 :=
  if byte.toNat < 0x80 then ([Char.ofNat byte.toNat], [])
  else if 0xC2 ≤ byte.toNat ∧ byte.toNat ≤ 0xF4 then ([], [byte])
  else ([REPLACEMENT_CHARACTER], [])

def readByte (pending : List UInt8) (byte : UInt8) : List Char × List UInt8 :=
  if goesOn pending byte then
    let bytes := pending ++ [byte]
    if bytes.length = charWidth (bytes.headD 0) then ([charOf bytes], []) else ([], bytes)
  else if pending = [] then beginChar byte
  else (REPLACEMENT_CHARACTER :: (beginChar byte).1, (beginChar byte).2)

/-- The rest of the bytes, behind what was begun. -/
def readBytes : List UInt8 → List UInt8 → List Char
  | pending, [] => if pending = [] then [] else [REPLACEMENT_CHARACTER]
  | pending, byte :: rest => (readByte pending byte).1 ++ readBytes (readByte pending byte).2 rest

/-- `String::from_utf8_lossy`. -/
def fromUtf8Lossy (bytes : List UInt8) : List Char := readBytes [] bytes

/-- What some bytes leave begun. -/
def begun (bytes : List UInt8) : List UInt8 := bytes.foldl (fun pending byte => (readByte pending byte).2) []

/-- The bytes `after` go on with a character that is begun in those before them. -/
def SplitsCharacter (before after : List UInt8) : Prop := after.head?.any (goesOn (begun before)) = true

instance (before after : List UInt8) : Decidable (SplitsCharacter before after) :=
  inferInstanceAs (Decidable (_ = true))

section Lossy

variable {pending before after bytes : List UInt8} {byte : UInt8}

theorem readBytes_nil (pending : List UInt8) :
    readBytes pending [] = if pending = [] then [] else [REPLACEMENT_CHARACTER] := rfl

theorem readBytes_cons (pending : List UInt8) (byte : UInt8) (rest : List UInt8) :
    readBytes pending (byte :: rest) = (readByte pending byte).1 ++ readBytes (readByte pending byte).2 rest := rfl

theorem readByte_goesOn (h : goesOn pending byte = true) : readByte [] byte = ([REPLACEMENT_CHARACTER], []) := by
  have hrange : 0x80 ≤ byte.toNat ∧ byte.toNat ≤ 0xBF := by
    rw [goesOn.eq_def] at h
    split at h
    · cases h
    · split_ifs at h <;> simp only [isTail, Bool.and_eq_true, decide_eq_true_eq] at h <;> omega
    · simpa [isTail] using h
  have hnone : goesOn [] byte = false := rfl
  rw [readByte, hnone, if_neg Bool.false_ne_true, if_pos rfl, beginChar, if_neg (by omega), if_neg (by omega)]

theorem readBytes_stops (h : goesOn pending byte = false) (rest : List UInt8) :
    readBytes pending (byte :: rest) = readBytes pending [] ++ readBytes [] (byte :: rest) := by
  have hnone : goesOn [] byte = false := rfl
  by_cases hpending : pending = []
  · rw [hpending]
    rfl
  · rw [readBytes_cons, readBytes_cons, readBytes_nil, readByte, readByte, h, hnone]
    simp [hpending]

/-- What was begun is at most one more character. -/
theorem length_readBytes_le (pending bytes : List UInt8) :
    (readBytes pending bytes).length ≤ 1 + (readBytes [] bytes).length := by
  induction bytes generalizing pending with
  | nil =>
    rw [readBytes_nil]
    split_ifs <;> simp
  | cons byte rest ih =>
    cases hgoes : goesOn pending byte with
    | true =>
      have hrest : readBytes [] (byte :: rest) = REPLACEMENT_CHARACTER :: readBytes [] rest := by
        rw [readBytes_cons, readByte_goesOn hgoes]
        rfl
      rw [hrest, readBytes_cons, readByte, if_pos hgoes]
      simp only
      split_ifs
      · simp
      · have hbound := ih (pending ++ [byte])
        simp only [List.nil_append, List.length_cons]
        omega
    | false =>
      have hflush : (readBytes pending []).length ≤ 1 := by
        rw [readBytes_nil]
        split_ifs <;> simp
      rw [readBytes_stops hgoes, List.length_append]
      omega

theorem length_fromUtf8Lossy_le (bytes : List UInt8) : (fromUtf8Lossy bytes).length ≤ bytes.length := by
  unfold fromUtf8Lossy
  induction bytes with
  | nil => exact Nat.le_refl 0
  | cons byte rest ih =>
    have hbegin : readByte [] byte = beginChar byte := rfl
    rw [readBytes_cons, hbegin, beginChar, List.length_append, List.length_cons]
    split_ifs
    · simp only [List.length_singleton]
      omega
    · have hpending := length_readBytes_le [byte] rest
      simp only [List.length_nil]
      omega
    · simp only [List.length_singleton]
      omega

theorem length_readBytes_lt (h : goesOn pending byte = true) (rest : List UInt8) :
    (readBytes pending (byte :: rest)).length < 1 + (readBytes [] (byte :: rest)).length := by
  have hrest : readBytes [] (byte :: rest) = REPLACEMENT_CHARACTER :: readBytes [] rest := by
    rw [readBytes_cons, readByte_goesOn h]
    rfl
  rw [hrest, readBytes_cons, readByte, if_pos h, List.length_cons]
  simp only
  split_ifs
  · simp
  · have hbound := length_readBytes_le (pending ++ [byte]) rest
    simp only [List.nil_append]
    omega

/-- What is read of some bytes, up to what they leave begun, stays when more follow. -/
theorem exists_readBytes_append (pending before : List UInt8) : ∃ read, ∀ after, readBytes pending (before ++ after) =
    read ++ readBytes (before.foldl (fun pending byte => (readByte pending byte).2) pending) after := by
  induction before generalizing pending with
  | nil => exact ⟨[], fun after => rfl⟩
  | cons byte rest ih =>
    obtain ⟨read, hread⟩ := ih (readByte pending byte).2
    refine ⟨(readByte pending byte).1 ++ read, fun after => ?_⟩
    rw [List.cons_append, readBytes_cons, hread, List.append_assoc]
    rfl

/-- Bytes behind what was begun, cut in two. -/
theorem readBytes_append_iff : readBytes pending (before ++ after) = readBytes pending before ++ readBytes [] after ↔
    ¬ after.head?.any (goesOn (before.foldl (fun pending byte => (readByte pending byte).2) pending)) = true := by
  induction before generalizing pending with
  | nil =>
    cases after with
    | nil =>
      refine iff_of_true ?_ (by simp)
      rw [List.append_nil, readBytes_nil, readBytes_nil, if_pos rfl, List.append_nil]
    | cons byte rest =>
      cases hgoes : goesOn pending byte with
      | true =>
        refine iff_of_false (fun heq => ?_) (by simpa using hgoes)
        have hlength := congrArg List.length heq
        have hlt := length_readBytes_lt hgoes rest
        have hpending : pending ≠ [] := by
          rintro rfl
          cases hgoes
        rw [List.nil_append, List.length_append, readBytes_nil, if_neg hpending] at hlength
        simp only [List.length_singleton] at hlength
        omega
      | false =>
        refine iff_of_true ?_ (by simpa using hgoes)
        exact readBytes_stops hgoes rest
  | cons byte rest ih =>
    rw [List.cons_append, readBytes_cons, readBytes_cons, List.append_assoc, List.append_cancel_left_eq, ih]
    rfl

/-- **Bytes that are cut in two** are read the same just when the cut splits no character. -/
theorem fromUtf8Lossy_append_iff (before after : List UInt8) :
    fromUtf8Lossy (before ++ after) = fromUtf8Lossy before ++ fromUtf8Lossy after ↔ ¬ SplitsCharacter before after :=
  readBytes_append_iff

/-- **What was read stays** when more bytes follow, but for one U+FFFD at its end. -/
theorem exists_fromUtf8Lossy_append (before : List UInt8) : ∃ read last,
    fromUtf8Lossy before = read ++ last ∧ (last = [] ∨ last = [REPLACEMENT_CHARACTER]) ∧
      ∀ after, ∃ more, fromUtf8Lossy (before ++ after) = read ++ more := by
  obtain ⟨read, hread⟩ := exists_readBytes_append [] before
  refine ⟨read, readBytes (begun before) [], ?_, ?_, fun after => ⟨_, hread after⟩⟩
  · have hself := hread []
    rwa [List.append_nil] at hself
  · rw [readBytes_nil]
    split_ifs
    · exact .inl rfl
    · exact .inr rfl

end Lossy

end Omnion.Text
