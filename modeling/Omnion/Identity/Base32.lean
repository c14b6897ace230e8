import Mathlib.Tactic.IntervalCases
import Omnion.Identity.Totp

/-!
# Base32

`crates/identity/src/totp.rs`: how a secret is written for authenticator apps, and read again.

## What is proved

* `base32Decode_respelled` — what was encoded is decoded, in either letter case and with
  separators anywhere in it.
-/

namespace Omnion.Identity.Totp

def character (value : ℕ) : Char := base32Alphabet.getD value 'A'

/-- How many characters a chunk of bytes takes. -/
def characters : ℕ → ℕ
  | 1 => 2 | 2 => 4 | 3 => 5 | 4 => 7 | _ => 8

/-- A chunk as one big-endian integer, at the top of a 40-bit window. -/
def windowOf (chunk : List UInt8) : ℕ :=
  chunk.foldl (fun bits byte => bits <<< 8 ||| byte.toNat) 0 <<< (40 - chunk.length * 8)

/-- The 5-bit groups of a chunk. -/
def groups (chunk : List UInt8) : List ℕ :=
  (List.range (characters chunk.length)).map fun index => (windowOf chunk >>> (35 - index * 5)) &&& 0x1f

/-- Encode bytes as unpadded Base32, five at a time. -/
def base32Encode : List UInt8 → List Char
  | [] => []
  | a :: b :: c :: d :: e :: rest => (groups [a, b, c, d, e]).map character ++ base32Encode rest
  | chunk => (groups chunk).map character

/-! ### Spellings -/

/-- A character the decoder passes over. -/
def Separator (c : Char) : Prop := c = '=' ∨ c = ' ' ∨ c = '-'

instance (c : Char) : Decidable (Separator c) := inferInstanceAs (Decidable (_ ∨ _))

/-- A text in another letter case, with separators put in. -/
inductive Respelled : List Char → List Char → Prop
  | nil : Respelled [] []
  | letter {c c' : Char} {text text' : List Char} (hcase : toAsciiUppercase c' = toAsciiUppercase c)
      (h : Respelled text text') : Respelled (c :: text) (c' :: text')
  | separator {c : Char} {text text' : List Char} (hc : Separator c) (h : Respelled text text') :
      Respelled text (c :: text')

variable {text text' : List Char} {buffer bits : ℕ}

theorem base32Loop_separator {c : Char} (hc : Separator c) :
    base32Loop (c :: text) buffer bits = base32Loop text buffer bits := by
  rcases hc with rfl | rfl | rfl <;> simp [base32Loop, toAsciiUppercase]

theorem Respelled.base32Loop_eq (h : Respelled text text') :
    ∀ buffer bits, base32Loop text' buffer bits = base32Loop text buffer bits := by
  induction h with
  | nil => intros; rfl
  | letter hcase _ ih => intros; simp only [base32Loop, hcase, ih]
  | separator hc _ ih => intros; rw [base32Loop_separator hc, ih]

/-! ### Groups of bits -/

/-- The bytes that 5-bit groups make up, after `bits` bits that are not put out yet. -/
def regroup : List ℕ → ℕ → ℕ → List UInt8
  | [], _, _ => []
  | value :: values, rest, bits =>
    if bits + 5 ≥ 8 then
      UInt8.ofNat ((rest * 32 + value) / 2 ^ (bits + 5 - 8)) ::
        regroup values ((rest * 32 + value) % 2 ^ (bits + 5 - 8)) (bits + 5 - 8)
    else regroup values (rest * 32 + value) (bits + 5)

theorem base32Alphabet_eq : base32Alphabet = ['A', 'B', 'C', 'D', 'E', 'F', 'G', 'H', 'I', 'J', 'K', 'L', 'M', 'N',
    'O', 'P', 'Q', 'R', 'S', 'T', 'U', 'V', 'W', 'X', 'Y', 'Z', '2', '3', '4', '5', '6', '7'] :=
  String.toList_ofList

theorem character_spec : ∀ value < 32, toAsciiUppercase (character value) = character value ∧
    ¬ Separator (character value) ∧ base32Alphabet.findIdx? (· = character value) = some value := by
  simp only [character, base32Alphabet_eq, Separator]
  decide +kernel

theorem buffer_eq {value : ℕ} (hvalue : value < 32) :
    (buffer <<< 5) % 2 ^ 64 ||| value = 32 * (buffer % 2 ^ 59) + value := by
  have hshift : (buffer <<< 5) % 2 ^ 64 = (buffer % 2 ^ 59) <<< 5 := by
    simp only [Nat.shiftLeft_eq]
    omega
  rw [hshift, ← Nat.shiftLeft_add_eq_or_of_lt hvalue, Nat.shiftLeft_eq]
  omega

/-- **What the decoder makes of characters**: only the bits not put out yet matter. -/
theorem base32Loop_map_character {values : List ℕ} (hvalues : ∀ value ∈ values, value < 32) (hbits : bits < 8) :
    base32Loop (values.map character) buffer bits = some (regroup values (buffer % 2 ^ bits) bits) := by
  induction values generalizing buffer bits with
  | nil => rfl
  | cons value values ih =>
    have hvalue := hvalues value List.mem_cons_self
    have hrest := fun v hv => hvalues v (List.mem_cons_of_mem _ hv)
    obtain ⟨hcase, hseparator, hfind⟩ := character_spec value hvalue
    simp only [Separator] at hseparator
    simp only [List.map_cons, base32Loop, hcase, hseparator, hfind, buffer_eq hvalue, regroup, if_false]
    by_cases hfull : bits + 5 ≥ 8
    · have hbyte : UInt8.ofNat ((32 * (buffer % 2 ^ 59) + value) >>> (bits + 5 - 8) &&& 0xff) =
          UInt8.ofNat ((buffer % 2 ^ bits * 32 + value) / 2 ^ (bits + 5 - 8)) := by
        rw [← UInt8.toNat_inj, Nat.shiftRight_eq_div_pow, show (0xff : ℕ) = 2 ^ 8 - 1 from rfl,
          Nat.and_two_pow_sub_one_eq_mod, UInt8.toNat_ofNat', UInt8.toNat_ofNat']
        interval_cases bits <;> omega
      have hleft : (32 * (buffer % 2 ^ 59) + value) % 2 ^ (bits + 5 - 8) =
          (buffer % 2 ^ bits * 32 + value) % 2 ^ (bits + 5 - 8) := by
        interval_cases bits <;> omega
      rw [if_pos hfull, if_pos hfull, ih hrest (by omega), hbyte, hleft, Option.map_some]
    · have hleft : (32 * (buffer % 2 ^ 59) + value) % 2 ^ (bits + 5) = buffer % 2 ^ bits * 32 + value := by
        interval_cases bits <;> omega
      rw [if_neg hfull, if_neg hfull, ih hrest (by omega), hleft]

theorem mem_groups {chunk : List UInt8} {value : ℕ} (h : value ∈ groups chunk) : value < 32 := by
  obtain ⟨index, -, rfl⟩ := List.mem_map.mp h
  exact Nat.lt_of_le_of_lt Nat.and_le_right (by decide)

/-! ### Chunks -/

/-- The 5-bit digits of a number, the greatest first. -/
def quintets : ℕ → ℕ → List ℕ
  | 0, _ => []
  | count + 1, n => n / 2 ^ (5 * count) % 32 :: quintets count n

/-- Digits of five bits make up the bytes of the number, but for the lowest bits. -/
theorem regroup_quintets {count whole left n : ℕ} (values : List ℕ) (hbits : bits < 8) (hleft : left < 8)
    (h : 5 * count + bits = 8 * whole + left) :
    regroup (quintets count n ++ values) (n / 2 ^ (5 * count) % 2 ^ bits) bits =
      Bytes.toBe whole (n / 2 ^ left) ++ regroup values (n % 2 ^ left) left := by
  induction count generalizing bits whole with
  | zero =>
    obtain ⟨rfl, rfl⟩ : whole = 0 ∧ left = bits := by omega
    simp [quintets, Bytes.toBe]
  | succ count ih =>
    have hnext : n / 2 ^ (5 * (count + 1)) % 2 ^ bits * 32 + n / 2 ^ (5 * count) % 32 =
        n / 2 ^ (5 * count) % 2 ^ (bits + 5) := by
      rw [show 5 * (count + 1) = 5 * count + 5 by omega, Nat.pow_add 2 (5 * count), ← Nat.div_div_eq_div_mul,
        Nat.add_comm bits 5, Nat.pow_add, Nat.mod_mul]
      omega
    rw [quintets, List.cons_append, regroup, hnext]
    split_ifs with hfull
    · obtain ⟨whole, rfl⟩ : ∃ k, whole = k + 1 := ⟨whole - 1, by omega⟩
      have hbyte : UInt8.ofNat (n / 2 ^ (5 * count) % 2 ^ (bits + 5) / 2 ^ (bits + 5 - 8)) =
          UInt8.ofNat (n / 2 ^ left / 256 ^ whole) := by
        have hsplit : 2 ^ (bits + 5) = 2 ^ (bits + 5 - 8) * 2 ^ 8 := by
          rw [← Nat.pow_add]
          congr 1
          omega
        rw [hsplit, Nat.mod_mul_right_div_self, ← UInt8.toNat_inj, UInt8.toNat_ofNat', UInt8.toNat_ofNat', Nat.mod_mod,
          Nat.div_div_eq_div_mul, Nat.div_div_eq_div_mul, show 256 = 2 ^ 8 from rfl, ← Nat.pow_mul, ← Nat.pow_add,
          ← Nat.pow_add, show 5 * count + (bits + 5 - 8) = left + 8 * whole by omega]
      have hrest : n / 2 ^ (5 * count) % 2 ^ (bits + 5) % 2 ^ (bits + 5 - 8) =
          n / 2 ^ (5 * count) % 2 ^ (bits + 5 - 8) :=
        Nat.mod_mod_of_dvd _ (Nat.pow_dvd_pow 2 (by omega))
      rw [hbyte, hrest, @ih (bits + 5 - 8) whole (by omega) (by omega), Bytes.toBe_succ, List.cons_append]
    · rw [@ih (bits + 5) whole (by omega) (by omega)]

theorem quintets_eq (count n : ℕ) :
    quintets count n = (List.range count).map fun index => n / 2 ^ (5 * (count - 1 - index)) % 32 := by
  induction count with
  | zero => rfl
  | succ count ih =>
    rw [quintets, ih, List.range_succ_eq_map, List.map_cons, List.map_map]
    refine congrArg₂ List.cons (by simp) (List.map_congr_left fun index _ => ?_)
    simp only [Function.comp_apply]
    rw [show count + 1 - 1 - (index + 1) = count - 1 - index by omega]

theorem characters_spec {length : ℕ} (hpos : 0 < length) (hlength : length ≤ 5) :
    characters length ≤ 8 ∧ 8 * length ≤ 5 * characters length ∧ 5 * characters length < 8 * length + 8 := by
  interval_cases length <;> decide

theorem groups_eq {chunk : List UInt8} (hchunk : chunk ≠ []) (hlength : chunk.length ≤ 5) :
    ∃ left < 8, 5 * characters chunk.length = 8 * chunk.length + left ∧
      groups chunk = quintets (characters chunk.length) (Bytes.ofBe chunk * 2 ^ left) := by
  obtain ⟨hcount, hbits, hleft⟩ := characters_spec (List.length_pos_of_ne_nil hchunk) hlength
  refine ⟨5 * characters chunk.length - 8 * chunk.length, by omega, by omega, ?_⟩
  rw [quintets_eq, groups, windowOf, Bytes.foldl_shiftLeft]
  refine List.map_congr_left fun index hindex => ?_
  have hindex' := List.mem_range.mp hindex
  rw [Nat.shiftLeft_eq, Nat.shiftRight_eq_div_pow, show (0x1f : ℕ) = 2 ^ 5 - 1 from rfl, Nat.and_two_pow_sub_one_eq_mod,
    show 40 - chunk.length * 8 = 5 * characters chunk.length - 8 * chunk.length + (40 - 5 * characters chunk.length) by
      omega,
    show 35 - index * 5 = 5 * (characters chunk.length - 1 - index) + (40 - 5 * characters chunk.length) by omega,
    Nat.pow_add, Nat.pow_add, ← Nat.mul_assoc, Nat.mul_div_mul_right _ _ (Nat.two_pow_pos _)]

theorem regroup_groups {chunk : List UInt8} (hchunk : chunk ≠ []) (hlength : chunk.length ≤ 5) (values : List ℕ) :
    ∃ left < 8, 5 * characters chunk.length = 8 * chunk.length + left ∧
      regroup (groups chunk ++ values) 0 0 = chunk ++ regroup values 0 left := by
  obtain ⟨left, hleft, hbits, hgroups⟩ := groups_eq hchunk hlength
  have h := regroup_quintets (n := Bytes.ofBe chunk * 2 ^ left) values (by decide : 0 < 8) hleft hbits
  rw [Nat.pow_zero, Nat.mod_one, Nat.mul_div_cancel _ (Nat.two_pow_pos left), Nat.mul_mod_left, Bytes.toBe_ofBe] at h
  exact ⟨left, hleft, hbits, hgroups ▸ h⟩

/-- What was encoded are the characters of groups that make up the bytes. -/
theorem base32Encode_eq (bytes : List UInt8) :
    ∃ values, base32Encode bytes = values.map character ∧ (∀ value ∈ values, value < 32) ∧
      regroup values 0 0 = bytes := by
  induction bytes using base32Encode.induct with
  | case1 => exact ⟨[], rfl, by simp, rfl⟩
  | case2 a b c d e rest ih =>
    obtain ⟨values, hencode, hvalues, hrest⟩ := ih
    refine ⟨groups [a, b, c, d, e] ++ values, by rw [base32Encode, hencode, List.map_append], ?_, ?_⟩
    · intro value hvalue
      exact (List.mem_append.mp hvalue).elim mem_groups (hvalues value)
    · obtain ⟨left, -, hbits, hregroup⟩ := regroup_groups (List.cons_ne_nil a [b, c, d, e]) le_rfl values
      obtain rfl : left = 0 := by simpa [characters] using hbits.symm
      rw [hregroup, hrest]
      rfl
  | case3 chunk hnil hlong =>
    have hlength : chunk.length ≤ 5 := by
      rcases chunk with _ | ⟨a, _ | ⟨b, _ | ⟨c, _ | ⟨d, _ | ⟨e, rest⟩⟩⟩⟩⟩ <;> try simp
      exact absurd rfl (hlong a b c d e rest)
    refine ⟨groups chunk, by rw [base32Encode] <;> assumption, fun value => mem_groups, ?_⟩
    obtain ⟨left, -, -, hregroup⟩ := regroup_groups hnil hlength []
    rwa [regroup, List.append_nil, List.append_nil] at hregroup

/-- **The round trip**: what was encoded is decoded, in either letter case and with separators
anywhere in it. -/
theorem base32Decode_respelled (bytes : List UInt8) :
    base32Decode (base32Encode bytes) = some bytes ∧
      ∀ text, Respelled (base32Encode bytes) text → base32Decode text = some bytes := by
  have hdecode : base32Decode (base32Encode bytes) = some bytes := by
    obtain ⟨values, hencode, hvalues, hbytes⟩ := base32Encode_eq bytes
    rw [hencode, base32Decode, base32Loop_map_character hvalues (by decide), Nat.zero_mod, hbytes]
  exact ⟨hdecode, fun text h => (h.base32Loop_eq 0 0).trans hdecode⟩

theorem base32Decode_lower : base32Decode ['m', '-', 'y', '='] = some [0x66] := by
  have hencode : base32Encode [0x66] = ['M', 'Y'] := by decide +kernel
  refine (base32Decode_respelled [0x66]).2 _ ?_
  rw [hencode]
  exact .letter (by decide) (.separator (by decide) (.letter (by decide) (.separator (by decide) .nil)))

end Omnion.Identity.Totp
