import Omnion.Core.Text
import Omnion.Identity.Secrets

/-!
# Time-based one-time passwords

`crates/identity/src/totp.rs`: the code of a time step, and which codes are accepted when.

## What is proved

* `verify_iff` — a code is accepted just when it is that of a step at most `window` steps from
  the clock, up to the last step there is.
-/

namespace Omnion.Identity.Totp

/-- Digits of a generated code. -/
def digits : ℕ := 6

/-- Length of one time step, in seconds. -/
def stepSeconds : ℕ := 30

/-- Steps of clock skew accepted on either side of the current step. -/
def defaultWindow : ℕ := 1

/-- Dynamic truncation: the low nibble of the last byte picks the offset. -/
def truncate (digest : Digest 20) : ℕ :=
  let offset := (digest.get 19 (by decide)).toNat &&& 0x0f
  have hoffset : offset ≤ 15 := Nat.and_le_right
  let binary := ((digest.get offset (by omega)).toNat &&& 0x7f) <<< 24 |||
    (digest.get (offset + 1) (by omega)).toNat <<< 16 |||
    (digest.get (offset + 2) (by omega)).toNat <<< 8 |||
    (digest.get (offset + 3) (by omega)).toNat
  binary % 10 ^ digits

/-- HOTP: HMAC-SHA1 over the counter, truncated to `digits` digits. -/
def hotp (hashes : Hashes) (secret : List UInt8) (counter : ℕ) : ℕ :=
  truncate (hashes.hmacSha1 secret (Bytes.toBe 8 counter))

/-- The time step a Unix timestamp falls in. -/
def counterFor (unixSeconds : ℤ) : ℕ := (max unixSeconds 0).toNat / stepSeconds

/-- `u32::MAX`. -/
def u32Max : ℕ := 0xffffffff

/-- `u64::MAX`. -/
def u64Max : ℕ := 0xffffffffffffffff

/-- `str::parse::<u32>`: digits, after a sign or none. -/
def parseU32 (text : List Char) : Option ℕ :=
  let number := match text with
    | '+' :: number => number
    | number => number
  if number ≠ [] ∧ number.all Text.isAsciiDigit then
    let value := number.foldl (fun n c => n * 10 + (c.toNat - '0'.toNat)) 0
    if value ≤ u32Max then some value else none
  else none

/-- The steps an offset leads to. -/
def stepsAt (counter offset : ℕ) : List ℕ :=
  (if offset ≤ counter then [counter - offset] else []) ++
    if counter + offset ≤ u64Max then [counter + offset] else []

/-- Verify a code against the current step and `window` steps either side. -/
def verify (hashes : Hashes) (secret : List UInt8) (code : String) (unixSeconds : ℤ) (window : ℕ) : Bool :=
  match parseU32 (Text.trim code).toList with
  | none => false
  | some candidate =>
    let counter := counterFor unixSeconds
    (List.range (window + 1)).any fun offset => (stepsAt counter offset).any fun step =>
      hotp hashes secret step = candidate

/-- The alphabet authenticator apps accept. -/
def base32Alphabet : List Char := "ABCDEFGHIJKLMNOPQRSTUVWXYZ234567".toList

/-- `char::to_ascii_uppercase`. -/
def toAsciiUppercase (c : Char) : Char := if 'a' ≤ c ∧ c ≤ 'z' then Char.ofNat (c.toNat - 32) else c

/-- The decoder: the bits read and not yet put out, and how many they are. -/
def base32Loop : List Char → ℕ → ℕ → Option (List UInt8)
  | [], _, _ => some []
  | c :: rest, buffer, bits =>
    let c := toAsciiUppercase c
    if c = '=' ∨ c = ' ' ∨ c = '-' then base32Loop rest buffer bits
    else
      match base32Alphabet.findIdx? (· = c) with
      | none => none
      | some value =>
        let buffer := (buffer <<< 5) % 2 ^ 64 ||| value
        let bits := bits + 5
        if bits ≥ 8 then
          (base32Loop rest buffer (bits - 8)).map (UInt8.ofNat ((buffer >>> (bits - 8)) &&& 0xff) :: ·)
        else base32Loop rest buffer bits

/-- Decode unpadded (or padded) Base32; `none` for anything the alphabet cannot express. -/
def base32Decode (text : List Char) : Option (List UInt8) := base32Loop text 0 0

section Window

variable {hashes : Hashes} {secret : List UInt8} {code : String} {unixSeconds : ℤ} {window counter step : ℕ}

theorem mem_stepsAt {offset : ℕ} : step ∈ stepsAt counter offset ↔
    (step + offset = counter ∨ step = counter + offset ∧ step ≤ u64Max) := by
  simp only [stepsAt, List.mem_append]
  split_ifs <;> simp <;> omega

/-- **What is accepted** is the code of a step at most `window` steps from the clock. -/
theorem verify_window (h : verify hashes secret code unixSeconds window = true) :
    ∃ step, counterFor unixSeconds ≤ step + window ∧ step ≤ counterFor unixSeconds + window ∧
      parseU32 (Text.trim code).toList = some (hotp hashes secret step) := by
  simp only [verify] at h
  split at h
  · cases h
  · rename_i candidate hcandidate
    obtain ⟨offset, hoffset, hany⟩ := List.any_eq_true.mp h
    obtain ⟨step, hstep, hcode⟩ := List.any_eq_true.mp hany
    have hrange := List.mem_range.mp hoffset
    rcases mem_stepsAt.mp hstep with hbefore | ⟨hafter, -⟩
    · exact ⟨step, by omega, by omega, by rw [hcandidate, of_decide_eq_true hcode]⟩
    · exact ⟨step, by omega, by omega, by rw [hcandidate, of_decide_eq_true hcode]⟩

/-- **Accepted is** just the code of a step at most `window` steps from the clock; a later one than the clock's
is up to `u64::MAX`. -/
theorem verify_iff : verify hashes secret code unixSeconds window = true ↔
    ∃ step, counterFor unixSeconds ≤ step + window ∧ step ≤ counterFor unixSeconds + window ∧
      (counterFor unixSeconds < step → step ≤ u64Max) ∧
      parseU32 (Text.trim code).toList = some (hotp hashes secret step) := by
  have hreached : ∀ step, (∃ offset < window + 1, step ∈ stepsAt (counterFor unixSeconds) offset) ↔
      counterFor unixSeconds ≤ step + window ∧ step ≤ counterFor unixSeconds + window ∧
        (counterFor unixSeconds < step → step ≤ u64Max) := by
    intro step
    constructor
    · rintro ⟨offset, hrange, hstep⟩
      rcases mem_stepsAt.mp hstep with hbefore | ⟨hafter, hlimit⟩
      · omega
      · exact ⟨by omega, by omega, fun _ => hlimit⟩
    · rintro ⟨hbefore, hafter, hlimit⟩
      rcases Nat.lt_or_ge (counterFor unixSeconds) step with hlt | hle
      · exact ⟨step - counterFor unixSeconds, by omega, mem_stepsAt.mpr (.inr ⟨by omega, hlimit hlt⟩)⟩
      · exact ⟨counterFor unixSeconds - step, by omega, mem_stepsAt.mpr (.inl (by omega))⟩
  cases hcode : parseU32 (Text.trim code).toList with
  | none => simp [verify, hcode]
  | some candidate =>
    simp only [verify, hcode, List.any_eq_true, List.mem_range, decide_eq_true_eq, Option.some.injEq]
    constructor
    · rintro ⟨offset, hrange, step, hstep, rfl⟩
      obtain ⟨hbefore, hafter, hlimit⟩ := (hreached step).mp ⟨offset, hrange, hstep⟩
      exact ⟨step, hbefore, hafter, hlimit, rfl⟩
    · rintro ⟨step, hbefore, hafter, hlimit, rfl⟩
      obtain ⟨offset, hrange, hstep⟩ := (hreached step).mpr ⟨hbefore, hafter, hlimit⟩
      exact ⟨offset, hrange, step, hstep, rfl⟩

end Window

end Omnion.Identity.Totp
