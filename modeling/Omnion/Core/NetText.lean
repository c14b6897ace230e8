import Omnion.Core.Net
import Omnion.Library.Prefixes
import Omnion.Library.Words

/-!
# The texts of addresses and networks

`str::parse::<IpAddr>`, the parser of the standard library, and `str::parse::<u8>`; and what the
text of a network is: an address, or an address and the length of a prefix.

## What is proved

* `names_iff` — a text names a network just when, cut at its first slash and trimmed, its parts
  are read as an address and as a length that is not too great.
-/

namespace Omnion

/-! ### Addresses -/

/-- `Parser` of `core::net`. What cannot be read is left in place. -/
abbrev NetParser (α : Type) := StateT (List Char) Option α

namespace NetParser

variable {α : Type}

/-- `char::to_digit`. -/
def toDigit (radix : ℕ) (c : Char) : Option ℕ :=
  let value :=
    if '0' ≤ c ∧ c ≤ '9' then c.toNat - '0'.toNat
    else if 'a' ≤ c ∧ c ≤ 'z' then c.toNat - 'a'.toNat + 10
    else if 'A' ≤ c ∧ c ≤ 'Z' then c.toNat - 'A'.toNat + 10
    else radix
  if value < radix then some value else none

/-- Read the next character if it is this one. -/
def readGivenChar (target : Char) : NetParser Unit
  | c :: rest => if c = target then some ((), rest) else none
  | [] => none

/-- Read something after a separator, which the first of several does not have. -/
def readSeparator (separator : Char) (index : ℕ) (inner : NetParser α) : NetParser α := do
  if 0 < index then readGivenChar separator
  inner

/-- Read a number of at most so many digits that is at most `max`. -/
def readNumber (radix maxDigits : ℕ) (allowZeroPrefix : Bool) (max : ℕ) : NetParser ℕ := fun text =>
  let digits := text.takeWhile fun c => (toDigit radix c).isSome
  let result := digits.foldl (fun n c => n * radix + (toDigit radix c).getD 0) 0
  if maxDigits < digits.length ∨ digits = [] then none
  else if allowZeroPrefix = false ∧ digits.head? = some '0' ∧ 1 < digits.length then none
  else if result ≤ max then some (result, text.dropWhile fun c => (toDigit radix c).isSome)
  else none

/-- Four numbers between points. -/
def readIpv4Addr : NetParser (List ℕ) :=
  (List.range 4).mapM fun i => readSeparator '.' i (readNumber 10 3 false 255)

/-- Groups between colons, as many as there are from the `index`th up to the limit, and whether
the last two of them are a v4 address. -/
def readGroups : (limit index : ℕ) → NetParser (List ℕ × Bool)
  | 0, _ => pure ([], false)
  | limit + 1, index => fun text =>
    match (if 0 < limit then readSeparator ':' index readIpv4Addr text else none) with
    | some ([one, two, three, four], rest) => some (([one * 256 + two, three * 256 + four], true), rest)
    | _ =>
      match readSeparator ':' index (readNumber 16 4 true 65535) text with
      | some (group, rest) =>
        (readGroups limit (index + 1) rest).map fun ((groups, ipv4), rest) => ((group :: groups, ipv4), rest)
      | none => some (([], false), text)

/-- Eight groups, or fewer around a `::` in the place of groups of zeros. -/
def readIpv6Addr : NetParser (List ℕ) := do
  let (head, ipv4) ← readGroups 8 0
  if head.length = 8 then pure head
  -- A v4 address does not stand before a `::`.
  else if ipv4 then failure
  else
    readGivenChar ':'
    readGivenChar ':'
    let (tail, _) ← readGroups (8 - (head.length + 1)) 0
    pure (head ++ List.replicate (8 - head.length - tail.length) 0 ++ tail)

/-- Groups in a row. -/
def ofGroups (base width : ℕ) (groups : List ℕ) : BitVec width :=
  BitVec.ofNat width (groups.foldl (fun n group => n * base + group) 0)

/-- A v4 address or a v6 one. -/
def readIpAddr : NetParser IpAddr :=
  (IpAddr.v4 <$> ofGroups 256 32 <$> readIpv4Addr) <|> (IpAddr.v6 <$> ofGroups 65536 128 <$> readIpv6Addr)

end NetParser

namespace IpAddr

/-- `str::parse::<IpAddr>`: the whole text is one address. -/
def parse (text : List Char) : Option IpAddr :=
  match NetParser.readIpAddr text with
  | some (address, []) => some address
  | _ => none

example : parse "2001:db8::10.0.0.1".toList = some (.v6 0x20010db800000000000000000a000001#128) := by decide +kernel

example : parse "10.0.0.01".toList = none := by decide +kernel

end IpAddr

/-! ### The characters of an address -/

namespace NetParser

variable {α β : Type} {a : α} {r : NetParser α} {f : α → NetParser β} {text rest : List Char}

/-- A character an address may have. -/
def IsAddressChar (c : Char) : Prop := (toDigit 16 c).isSome ∨ c = ':' ∨ c = '.'

/-- What is read are characters of an address. -/
def Consumes (r : NetParser α) : Prop :=
  ∀ text a rest, r text = some (a, rest) → ∃ used, text = used ++ rest ∧ ∀ c ∈ used, IsAddressChar c

theorem consumes_pure : Consumes (pure a) := by
  intro text a' rest h
  obtain ⟨-, rfl⟩ := Prod.mk.inj (Option.some.inj h)
  exact ⟨[], rfl, by simp⟩

theorem Consumes.bind (hr : Consumes r) (hf : ∀ a, Consumes (f a)) : Consumes (r >>= f) := by
  intro text b last h
  obtain ⟨⟨a, rest⟩, ha, hb⟩ := Option.bind_eq_some_iff.mp h
  obtain ⟨used, rfl, hused⟩ := hr _ _ _ ha
  obtain ⟨used', rfl, hused'⟩ := hf a _ _ _ hb
  exact ⟨used ++ used', by simp, fun c hc => (List.mem_append.mp hc).elim (hused c) (hused' c)⟩

theorem Consumes.map {g : α → β} (hr : Consumes r) : Consumes (g <$> r) := by
  rw [map_eq_pure_bind]
  exact hr.bind fun _ => consumes_pure

theorem Consumes.orElse {r' : NetParser α} (hr : Consumes r) (hr' : Consumes r') : Consumes (r <|> r') := by
  intro text a rest h
  change (r text <|> r' text) = some (a, rest) at h
  cases hread : r text with
  | none => exact hr' _ _ _ (by simpa [hread] using h)
  | some p => exact hr _ _ _ (by simpa [hread] using h)

theorem consumes_readGivenChar {target : Char} (h : IsAddressChar target) : Consumes (readGivenChar target) := by
  rintro (_ | ⟨c, text⟩) a rest hread
  · cases hread
  · simp only [readGivenChar, Option.ite_none_right_eq_some] at hread
    obtain ⟨rfl, hread⟩ := hread
    obtain ⟨-, rfl⟩ := Prod.mk.inj (Option.some.inj hread)
    exact ⟨[c], rfl, by simpa using h⟩

theorem Consumes.readSeparator {separator : Char} {index : ℕ} (h : IsAddressChar separator) (hr : Consumes r) :
    Consumes (readSeparator separator index r) := by
  unfold NetParser.readSeparator
  split_ifs
  · exact (consumes_readGivenChar h).bind fun _ => hr
  · exact hr

theorem toDigit_of_le {radix radix' : ℕ} (hle : radix ≤ radix') {c : Char} (h : (toDigit radix c).isSome) :
    (toDigit radix' c).isSome := by
  simp only [toDigit] at h ⊢
  split_ifs at h ⊢ <;> simp_all <;> omega

theorem consumes_readNumber {radix maxDigits max : ℕ} {allowZeroPrefix : Bool} (hradix : radix ≤ 16) :
    Consumes (readNumber radix maxDigits allowZeroPrefix max) := by
  intro text a rest h
  simp only [readNumber] at h
  split_ifs at h
  obtain ⟨-, rfl⟩ := Prod.mk.inj (Option.some.inj h)
  refine ⟨text.takeWhile fun c => (toDigit radix c).isSome, List.takeWhile_append_dropWhile.symm, fun c hc => ?_⟩
  have hdigit : (toDigit radix c).isSome := List.mem_takeWhile_imp (p := fun c => (toDigit radix c).isSome) hc
  exact .inl (toDigit_of_le hradix hdigit)

theorem consumes_mapM {ι : Type} {f : ι → NetParser α} (hf : ∀ i, Consumes (f i)) (l : List ι) :
    Consumes (l.mapM f) := by
  induction l with
  | nil => exact consumes_pure
  | cons i l ih =>
    rw [List.mapM_cons]
    exact (hf i).bind fun _ => ih.bind fun _ => consumes_pure

theorem consumes_readIpv4Addr : Consumes readIpv4Addr :=
  consumes_mapM (fun _ => (consumes_readNumber (by decide)).readSeparator (.inr (.inr rfl))) _

theorem consumes_readGroups (limit index : ℕ) : Consumes (readGroups limit index) := by
  induction limit generalizing index with
  | zero => exact consumes_pure
  | succ limit ih =>
    intro text a rest h
    simp only [readGroups] at h
    split at h
    · rename_i hread
      obtain ⟨-, rfl⟩ := Prod.mk.inj (Option.some.inj h)
      split_ifs at hread
      exact (consumes_readIpv4Addr.readSeparator (.inr (.inl rfl))) _ _ _ hread
    · split at h
      · rename_i group rest' hread
        obtain ⟨⟨⟨groups, ipv4⟩, last⟩, hrest, heq⟩ := Option.map_eq_some_iff.mp h
        obtain ⟨-, rfl⟩ := Prod.mk.inj heq
        obtain ⟨used, rfl, hused⟩ := (consumes_readNumber (by decide)).readSeparator (.inr (.inl rfl)) _ _ _ hread
        obtain ⟨used', rfl, hused'⟩ := ih _ _ _ _ hrest
        exact ⟨used ++ used', by simp, fun c hc => (List.mem_append.mp hc).elim (hused c) (hused' c)⟩
      · obtain ⟨-, rfl⟩ := Prod.mk.inj (Option.some.inj h)
        exact ⟨[], rfl, by simp⟩

theorem consumes_readIpv6Addr : Consumes readIpv6Addr := by
  have hcolon : Consumes (readGivenChar ':') := consumes_readGivenChar (.inr (.inl rfl))
  refine (consumes_readGroups 8 0).bind fun (head, ipv4) => ?_
  dsimp only
  split_ifs
  · exact consumes_pure
  · exact fun _ _ _ h => nomatch h
  · exact hcolon.bind fun _ => hcolon.bind fun _ => (consumes_readGroups _ 0).bind fun _ => consumes_pure

theorem consumes_readIpAddr : Consumes readIpAddr :=
  consumes_readIpv4Addr.map.map.orElse consumes_readIpv6Addr.map.map

end NetParser

/-- **An address** has only digits, colons and points. -/
theorem IpAddr.isAddressChar_of_parse {text : List Char} {address : IpAddr} (h : parse text = some address) :
    ∀ c ∈ text, NetParser.IsAddressChar c := by
  unfold parse at h
  split at h
  · rename_i hread
    obtain ⟨used, rfl, hused⟩ := NetParser.consumes_readIpAddr _ _ _ hread
    simpa using hused
  · cases h

theorem NetParser.IsAddressChar.toNat {c : Char} (h : IsAddressChar c) :
    c.toNat = 0x2e ∨ 0x30 ≤ c.toNat ∧ c.toNat ≤ 0x7a := by
  have hle : ∀ a b : Char, a ≤ b ↔ a.toNat ≤ b.toNat := fun _ _ => UInt32.le_iff_toNat_le
  have h0 : '0'.toNat = 0x30 := rfl
  have hz : 'z'.toNat = 0x7a := rfl
  have h9 : '9'.toNat = 0x39 := rfl
  have ha : 'a'.toNat = 0x61 := rfl
  have hA : 'A'.toNat = 0x41 := rfl
  have hZ : 'Z'.toNat = 0x5a := rfl
  obtain h | rfl | rfl := h
  · simp only [toDigit, hle] at h
    split_ifs at h <;> first | omega | cases h
  · decide
  · decide

theorem IpAddr.isWhitespace_of_parse {text : List Char} {address : IpAddr} (h : parse text = some address) :
    ∀ c ∈ text, Text.isWhitespace c = false := by
  intro c hc
  have hrange := (isAddressChar_of_parse h c hc).toNat
  simp only [Text.isWhitespace, Bool.or_eq_false_iff, Bool.and_eq_false_iff, decide_eq_false_iff_not,
    beq_eq_false_iff_ne]
  omega

theorem IpAddr.notMem_of_parse {text : List Char} {address : IpAddr} (h : parse text = some address) :
    '/' ∉ text ∧ '+' ∉ text := by
  constructor <;> exact fun hc => absurd (isAddressChar_of_parse h _ hc).toNat (by decide)

theorem IpAddr.ne_nil_of_parse {text : List Char} {address : IpAddr} (h : parse text = some address) : text ≠ [] := by
  rintro rfl
  cases h

-- The steps of the parser are not looked at any more.
attribute [irreducible] IpAddr.parse

/-! ### Lengths of prefixes -/

namespace Text

def Digits (text : List Char) : Prop := text ≠ [] ∧ ∀ c ∈ text, isAsciiDigit c = true

instance : DecidablePred Digits := fun text =>
  decidable_of_iff (text ≠ [] ∧ text.all isAsciiDigit = true) (by simp [Digits])

/-- The number that digits make up. -/
def decimal (digits : List Char) : ℕ := digits.foldl (fun n c => n * 10 + (c.toNat - '0'.toNat)) 0

/-- `str::parse::<u8>`: digits, after a plus sign or none. -/
def parseU8 (text : List Char) : Option ℕ :=
  let digits := if text.head? = some '+' then text.tail else text
  if Digits digits ∧ decimal digits ≤ 255 then some (decimal digits) else none

/-- `str::parse::<i32>`: digits, after a sign or none. -/
def parseI32 (text : List Char) : Option ℤ :=
  let digits := if text.head? = some '+' ∨ text.head? = some '-' then text.tail else text
  let n : ℤ := if text.head? = some '-' then -decimal digits else decimal digits
  if Digits digits ∧ -2147483648 ≤ n ∧ n ≤ 2147483647 then some n else none

theorem isAsciiDigit_toNat {c : Char} (h : isAsciiDigit c = true) : 0x30 ≤ c.toNat ∧ c.toNat ≤ 0x39 := by
  simp only [isAsciiDigit, Bool.and_eq_true, decide_eq_true_eq, Char.le_def, UInt32.le_iff_toNat_le] at h
  exact h

theorem Digits.head_ne {digits : List Char} (h : Digits digits) : digits.head? ≠ some '+' := fun hplus =>
  absurd (h.2 _ (List.mem_of_mem_head? hplus)) (by decide)

theorem parseU8_eq_some {text : List Char} {n : ℕ} : parseU8 text = some n ↔
    ∃ digits, (text = digits ∨ text = '+' :: digits) ∧ Digits digits ∧ decimal digits = n ∧ n ≤ 255 := by
  simp only [parseU8, Option.ite_none_right_eq_some, Option.some.injEq]
  constructor
  · rintro ⟨⟨hdigits, hle⟩, rfl⟩
    refine ⟨_, ?_, hdigits, rfl, hle⟩
    split_ifs with hplus
    · exact .inr (List.eq_cons_of_mem_head? hplus)
    · exact .inl rfl
  · rintro ⟨digits, rfl | rfl, hdigits, rfl, hle⟩
    · rw [if_neg hdigits.head_ne]
      exact ⟨⟨hdigits, hle⟩, rfl⟩
    · exact ⟨⟨hdigits, hle⟩, rfl⟩

theorem digits_pad (width n : ℕ) : Digits (pad width n).toList := by
  refine ⟨?_, fun c hc => ?_⟩
  · rw [pad, String.toList_ofList]
    exact List.append_ne_nil_of_right_ne_nil _ Nat.toDigits_ne_nil
  · have hdigit := Char.isDigit_iff_toNat.mp (digit_of_mem_pad hc)
    simp only [isAsciiDigit, Bool.and_eq_true, decide_eq_true_eq, Char.le_def, UInt32.le_iff_toNat_le]
    exact hdigit

theorem decimal_pad (width n : ℕ) : decimal (pad width n).toList = n := by
  have hzeros : ∀ k, (List.replicate k '0').foldl (fun n c => n * 10 + (c.toNat - '0'.toNat)) 0 = 0 := by
    intro k
    induction k with
    | zero => rfl
    | succ k ih =>
      rw [List.replicate_succ, List.foldl_cons]
      exact ih
  have hdigits : decimal (Nat.toDigits 10 n) = Nat.ofDigitChars 10 (Nat.toDigits 10 n) 0 := by
    rw [decimal, Nat.ofDigitChars]
    simp only [Nat.mul_comm]
  rw [pad, String.toList_ofList, decimal, List.foldl_append, hzeros]
  exact hdigits.trans (Nat.ofDigitChars_ten_toDigits)

theorem parseU8_pad {width n : ℕ} (h : n ≤ 255) : parseU8 (pad width n).toList = some n :=
  parseU8_eq_some.mpr ⟨_, .inl rfl, digits_pad width n, decimal_pad width n, h⟩

theorem parseI32_pad {width n : ℕ} (h : n ≤ 2147483647) : parseI32 (pad width n).toList = some (n : ℤ) := by
  have hminus : (pad width n).toList.head? ≠ some '-' := fun hminus =>
    absurd ((digits_pad width n).2 _ (List.mem_of_mem_head? hminus)) (by decide)
  rw [parseI32, if_neg (not_or.mpr ⟨(digits_pad width n).head_ne, hminus⟩), if_neg hminus, decimal_pad]
  exact if_pos ⟨digits_pad width n, by omega, by omega⟩

theorem Digits.chars {digits : List Char} (h : Digits digits) : ∀ c ∈ digits, isWhitespace c = false ∧ c ≠ '+' := by
  intro c hc
  have hrange := isAsciiDigit_toNat (h.2 c hc)
  refine ⟨?_, fun hplus => absurd (hplus ▸ hrange) (by decide)⟩
  simp only [isWhitespace, Bool.or_eq_false_iff, Bool.and_eq_false_iff, decide_eq_false_iff_not, beq_eq_false_iff_ne]
  omega

theorem ne_nil_of_parseU8 {text : List Char} {n : ℕ} (h : parseU8 text = some n) : text ≠ [] := by
  obtain ⟨digits, rfl | rfl, hdigits, -⟩ := parseU8_eq_some.mp h
  · exact hdigits.1
  · simp

theorem isWhitespace_of_parseU8 {text : List Char} {n : ℕ} (h : parseU8 text = some n) :
    ∀ c ∈ text, isWhitespace c = false := by
  obtain ⟨digits, rfl | rfl, hdigits, -⟩ := parseU8_eq_some.mp h
  · exact fun c hc => (hdigits.chars c hc).1
  · exact List.forall_mem_cons.mpr ⟨by decide, fun c hc => (hdigits.chars c hc).1⟩

/-- White space. -/
def Blank (text : List Char) : Prop := ∀ c ∈ text, isWhitespace c = true

theorem Blank.append {text text' : List Char} (h : Blank text) (h' : Blank text') : Blank (text ++ text') :=
  fun c hc => (List.mem_append.mp hc).elim (h c) (h' c)

theorem blank_nil : Blank [] := fun _ hc => absurd hc List.not_mem_nil

theorem Blank.eq_nil {text : List Char} (hblank : Blank text)
    (hchars : ∀ c ∈ text, isWhitespace c = false) : text = [] := by
  cases text with
  | nil => rfl
  | cons c rest => simpa [hchars c List.mem_cons_self] using hblank c List.mem_cons_self

/-- `str::trim`, of the characters. -/
theorem toList_trim (s : String) : (trim s).toList = Words.trim isWhitespace s.toList := by simp [trim, Words.trim]

end Text

/-! ### Networks -/

namespace IpAddr

open Text

/-- The number of bits. -/
def width : IpAddr → ℕ
  | .v4 _ => 32
  | .v6 _ => 128

/-- The addresses are of one family and begin with the same `n` bits. -/
def SharePrefix (n : ℕ) : IpAddr → IpAddr → Prop
  | .v4 x, .v4 y => Prefixes.Share n x y
  | .v6 x, .v6 y => Prefixes.Share n x y
  | _, _ => False

instance (n : ℕ) (address other : IpAddr) : Decidable (address.SharePrefix n other) :=
  match address, other with
  | .v4 x, .v4 y => inferInstanceAs (Decidable (Prefixes.Share n x y))
  | .v6 x, .v6 y => inferInstanceAs (Decidable (Prefixes.Share n x y))
  | .v4 _, .v6 _ => .isFalse id
  | .v6 _, .v4 _ => .isFalse id

/-- No bit after the first `n` is set. -/
def Network (n : ℕ) : IpAddr → Prop
  | .v4 x => Prefixes.Network n x
  | .v6 x => Prefixes.Network n x

theorem width_le (address : IpAddr) : address.width ≤ 128 := by cases address <;> simp [width]

theorem network_width (address : IpAddr) : address.Network address.width := by
  cases address <;> exact Prefixes.network_width _

/-- **The text of a network**: an address, or an address and the length of a prefix after a slash,
with white space around each. -/
inductive Names : List Char → IpAddr → ℕ → Prop where
  | address {before text after : List Char} {address : IpAddr} : Blank before → Blank after →
      parse text = some address → Names (before ++ (text ++ after)) address address.width
  | network {before text between between' length after : List Char} {address : IpAddr} {n : ℕ} :
      Blank before → Blank between → Blank between' → Blank after → parse text = some address →
      parseU8 length = some n → n ≤ address.width →
      Names (before ++ (text ++ (between ++ '/' :: (between' ++ (length ++ after))))) address n

variable {text : List Char} {address : IpAddr} {n : ℕ}

theorem Names.of_parse (haddress : parse text = some address) : Names text address address.width := by
  simpa using Names.address blank_nil blank_nil haddress

theorem Names.of_network {length : List Char} (haddress : parse text = some address) (hlength : Digits length)
    (hle : decimal length ≤ address.width) : Names (text ++ '/' :: length) address (decimal length) := by
  have hread : parseU8 length = some (decimal length) :=
    parseU8_eq_some.mpr ⟨length, .inl rfl, hlength, rfl, by have := address.width_le; omega⟩
  simpa using Names.network blank_nil blank_nil blank_nil blank_nil haddress hread hle

/-- **A network written without white space and plus signs.** -/
theorem Names.plain (h : Names text address n) (hchars : ∀ c ∈ text, isWhitespace c = false ∧ c ≠ '+') :
    parse text = some address ∧ n = address.width ∨
      ∃ part length, text = part ++ '/' :: length ∧ parse part = some address ∧ Digits length ∧ decimal length = n ∧
        n ≤ address.width := by
  cases h with
  | @address before text after _ hbefore hafter haddress =>
    obtain rfl := hbefore.eq_nil fun c hc => (hchars c (by simp [hc])).1
    obtain rfl := hafter.eq_nil fun c hc => (hchars c (by simp [hc])).1
    exact .inl ⟨by simpa using haddress, rfl⟩
  | @network before text between between' length after _ _ hbefore hbetween hbetween' hafter haddress hlength hle =>
    obtain rfl := hbefore.eq_nil fun c hc => (hchars c (by simp [hc])).1
    obtain rfl := hbetween.eq_nil fun c hc => (hchars c (by simp [hc])).1
    obtain rfl := hbetween'.eq_nil fun c hc => (hchars c (by simp [hc])).1
    obtain rfl := hafter.eq_nil fun c hc => (hchars c (by simp [hc])).1
    obtain ⟨digits, rfl | rfl, hdigits, hn, -⟩ := parseU8_eq_some.mp hlength
    · exact .inr ⟨text, _, by simp, haddress, hdigits, hn, hle⟩
    · exact absurd rfl (hchars '+' (by simp)).2

theorem exists_blank (text : List Char) :
    ∃ before after, text = before ++ (Words.trim isWhitespace text ++ after) ∧ Blank before ∧ Blank after := by
  obtain ⟨before, after, htext, hbefore, hafter, -⟩ := Words.trim_eq_iff.mp (rfl : Words.trim isWhitespace text = _)
  exact ⟨before, after, htext, hbefore, hafter⟩

theorem trim_network {before between between' length after : List Char} (hbefore : Blank before) (hafter : Blank after)
    (haddress : parse text = some address) (hlength : parseU8 length = some n) :
    Words.trim isWhitespace (before ++ (text ++ (between ++ '/' :: (between' ++ (length ++ after))))) =
      text ++ (between ++ '/' :: (between' ++ length)) := by
  have hbare := Words.bare_of_forall (isWhitespace_of_parse haddress)
  have hbare' := Words.bare_of_forall (isWhitespace_of_parseU8 hlength)
  have hends : Words.Bare isWhitespace (text ++ ((between ++ '/' :: between') ++ length)) :=
    hbare.append (ne_nil_of_parse haddress) hbare' (ne_nil_of_parseU8 hlength)
  exact Words.trim_eq_iff.mpr ⟨before, after, by simp, hbefore, hafter, by simpa using hends⟩

theorem splitOnce_network {between : List Char} (hbetween : Blank between) (haddress : parse text = some address)
    (rest : List Char) : splitOnce ['/'] (text ++ (between ++ '/' :: rest)) = some (text ++ between, rest) := by
  refine splitOnce_singleton_eq_some_iff.mpr ⟨by simp, fun hmem => ?_⟩
  rcases List.mem_append.mp hmem with hmem | hmem
  · exact (notMem_of_parse haddress).1 hmem
  · exact absurd (hbetween _ hmem) (by decide)

/-- **What names a network** is cut at its first slash and trimmed. -/
theorem names_iff : Names text address n ↔
    (splitOnce ['/'] (Words.trim isWhitespace text) = none ∧ parse (Words.trim isWhitespace text) = some address ∧
      n = address.width) ∨
    ∃ first second, splitOnce ['/'] (Words.trim isWhitespace text) = some (first, second) ∧
      parse (Words.trim isWhitespace first) = some address ∧ parseU8 (Words.trim isWhitespace second) = some n ∧
        n ≤ address.width := by
  constructor
  · rintro (@⟨before, text, after, _, hbefore, hafter, haddress⟩ |
      @⟨before, text, between, between', length, after, _, n, hbefore, hbetween, hbetween', hafter,
        haddress, hlength, hle⟩)
    · have hbare := Words.bare_of_forall (isWhitespace_of_parse haddress)
      rw [Words.trim_eq_iff.mpr ⟨before, after, rfl, hbefore, hafter, hbare⟩]
      exact .inl ⟨splitOnce_singleton_eq_none_iff.mpr (notMem_of_parse haddress).1, haddress, rfl⟩
    · have hfirst : Words.trim isWhitespace (text ++ between) = text :=
        Words.trim_eq_iff.mpr ⟨[], between, rfl, by simp, hbetween, Words.bare_of_forall (isWhitespace_of_parse haddress)⟩
      have hsecond : Words.trim isWhitespace (between' ++ length) = length :=
        Words.trim_eq_iff.mpr ⟨between', [], by simp, hbetween', by simp,
          Words.bare_of_forall (isWhitespace_of_parseU8 hlength)⟩
      rw [trim_network hbefore hafter haddress hlength]
      exact .inr ⟨_, _, splitOnce_network hbetween haddress _, hfirst.symm ▸ haddress, hsecond.symm ▸ hlength, hle⟩
  · obtain ⟨before, after, htext, hbefore, hafter⟩ := exists_blank text
    generalize Words.trim isWhitespace text = trimmed at *
    rintro (⟨-, haddress, rfl⟩ | ⟨first, second, hsplit, haddress, hlength, hle⟩)
    · rw [htext]
      exact .address hbefore hafter haddress
    · obtain ⟨hcut, -⟩ := splitOnce_singleton_eq_some_iff.mp hsplit
      obtain ⟨before', between, hfirst, hbefore', hbetween⟩ := exists_blank first
      obtain ⟨between', after', hsecond, hbetween', hafter'⟩ := exists_blank second
      have hparts : text = before ++ before' ++ (Words.trim isWhitespace first ++
          (between ++ '/' :: (between' ++ (Words.trim isWhitespace second ++ (after' ++ after))))) := by
        rw [htext, hcut]
        conv_lhs => rw [hfirst, hsecond]
        simp
      rw [hparts]
      exact .network (hbefore.append hbefore') hbetween hbetween' (hafter'.append hafter) haddress hlength hle

theorem names_iff_of_none (hsplit : splitOnce ['/'] (Words.trim isWhitespace text) = none) :
    Names text address n ↔ parse (Words.trim isWhitespace text) = some address ∧ n = address.width := by
  simp [names_iff, hsplit]

theorem names_iff_of_some {first second : List Char}
    (hsplit : splitOnce ['/'] (Words.trim isWhitespace text) = some (first, second)) : Names text address n ↔
      parse (Words.trim isWhitespace first) = some address ∧ parseU8 (Words.trim isWhitespace second) = some n ∧
        n ≤ address.width := by
  simp only [names_iff, hsplit, reduceCtorEq, false_and, false_or, Option.some.injEq, Prod.mk.injEq]
  exact ⟨fun ⟨_, _, ⟨rfl, rfl⟩, h⟩ => h, fun h => ⟨first, second, ⟨rfl, rfl⟩, h⟩⟩

theorem Names.unique {address' : IpAddr} {n' : ℕ} (h : Names text address n) (h' : Names text address' n') :
    address = address' ∧ n = n' := by
  cases hsplit : splitOnce ['/'] (Words.trim isWhitespace text) with
  | none =>
    obtain ⟨haddress, rfl⟩ := (names_iff_of_none hsplit).mp h
    obtain ⟨haddress', rfl⟩ := (names_iff_of_none hsplit).mp h'
    obtain rfl := Option.some.inj (haddress.symm.trans haddress')
    exact ⟨rfl, rfl⟩
  | some parts =>
    obtain ⟨haddress, hlength, -⟩ := (names_iff_of_some hsplit).mp h
    obtain ⟨haddress', hlength', -⟩ := (names_iff_of_some hsplit).mp h'
    exact ⟨Option.some.inj (haddress.symm.trans haddress'), Option.some.inj (hlength.symm.trans hlength')⟩

theorem Names.trim_ne_nil (h : Names text address n) : Words.trim isWhitespace text ≠ [] := by
  intro hnil
  rcases names_iff.mp h with ⟨-, haddress, -⟩ | ⟨first, second, hsplit, -⟩
  · exact ne_nil_of_parse (hnil ▸ haddress) rfl
  · rw [hnil] at hsplit
    cases hsplit

end IpAddr

/-- **What the crate documents**: `new` refuses a prefix that is longer than the address, and `trunc` clears the bits
after the prefix. -/
structure Ipnet.Documented {Net : Type} (ipnet : Ipnet Net) : Prop where
  new_eq_none : ∀ {address : IpAddr} {n : ℕ}, ipnet.new address n = none ↔ ¬ n ≤ address.width
  trunc_eq_self_iff : ∀ {address : IpAddr} {n : ℕ} {network : Net}, ipnet.new address n = some network →
    (ipnet.trunc network = network ↔ address.Network n)

namespace IpNet

/-- The crate, but for the networks it reads. -/
def crate (parse : String → Option IpNet) : Ipnet IpNet where
  parse
  new address prefixLen :=
    if prefixLen ≤ address.width then
      match address with
      | .v4 bits => some (.v4 bits prefixLen)
      | .v6 bits => some (.v6 bits prefixLen)
    else none
  trunc
    | .v4 bits prefixLen => .v4 (bits &&& Prefixes.mask 32 prefixLen) prefixLen
    | .v6 bits prefixLen => .v6 (bits &&& Prefixes.mask 128 prefixLen) prefixLen
  text
    | .v4 bits prefixLen => s!"{(IpAddr.v4 bits).text}/{prefixLen}"
    | .v6 bits prefixLen => s!"{(IpAddr.v6 bits).text}/{prefixLen}"
  contains := IpNet.contains

theorem documented_crate (parse : String → Option IpNet) : (crate parse).Documented where
  new_eq_none := by
    intro address n
    unfold crate
    dsimp only
    split_ifs with h
    · cases address <;> simp [h]
    · simp [h]
  trunc_eq_self_iff := by
    intro address n network h
    simp only [crate, Option.ite_none_right_eq_some] at h
    obtain ⟨hle, h⟩ := h
    cases address <;> cases h
    · simpa only [crate, IpNet.v4.injEq, and_true, IpAddr.Network] using Prefixes.and_mask_eq_self_iff
        (show n ≤ 32 from hle)
    · simpa only [crate, IpNet.v6.injEq, and_true, IpAddr.Network] using Prefixes.and_mask_eq_self_iff
        (show n ≤ 128 from hle)

end IpNet

end Omnion
