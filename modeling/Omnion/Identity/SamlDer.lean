import Mathlib.Data.Nat.Log
import Omnion.Identity.Saml
import Omnion.Library.Bytes

/-!
# The key of a certificate

`spki_rsa_key` of `crates/identity/src/sso/saml.rs`, against the grammar of DER. A length takes
one byte, or a byte with a count and that many bytes; these are sliced off the input before it is
known that it has them.

## What is proved

* `spkiRsaKey_exact_iff` — when the reader stays within its input; and which encoded keys it
  reads back, with exactly their numbers.
* `cut_length` — a length that is cut off, on which it does not.
-/

namespace Omnion.Identity.Saml

variable {tag : UInt8} {input contents rest : List UInt8} {length n : ℕ}

/-! ### Elements as they are read -/

/-- The bytes that are read as a length. -/
inductive IsLength : ℕ → List UInt8 → Prop
  | short (n : ℕ) (h : n < 128) : IsLength n [UInt8.ofNat n]
  | long (raw : List UInt8) (hpos : 0 < raw.length) (hcount : raw.length ≤ 4) :
      IsLength (Bytes.ofBe raw) (UInt8.ofNat (128 + raw.length) :: raw)

/-- An element with its contents, and what comes after it. -/
def IsElement (tag : UInt8) (input contents rest : List UInt8) : Prop :=
  ∃ header, IsLength contents.length header ∧ input = tag :: (header ++ (contents ++ rest))

/-- A length in the long form, cut off by the end of the input. -/
def CutLength (input : List UInt8) : Prop :=
  ∃ count raw, count ≤ 4 ∧ raw.length < count ∧ input = UInt8.ofNat (128 + count) :: raw

/-- An element whose length is cut off. -/
def CutOff (tag : UInt8) (input : List UInt8) : Prop := ∃ after, input = tag :: after ∧ CutLength after

theorem byte_cases (first : UInt8) :
    (∃ n < 128, first = UInt8.ofNat n) ∨ ∃ count < 128, first = UInt8.ofNat (128 + count) := by
  have hfirst := first.toNat_lt
  by_cases hlow : first.toNat < 128
  · exact .inl ⟨first.toNat, hlow, UInt8.ofNat_toNat.symm⟩
  · exact .inr ⟨first.toNat - 128, by omega, by rw [Nat.add_sub_cancel' (by omega), UInt8.ofNat_toNat]⟩

theorem toNat_ofNat (hn : n < 256) : (UInt8.ofNat n).toNat = n := by
  rw [UInt8.toNat_ofNat']
  exact Nat.mod_eq_of_lt hn

theorem derLength_short (hn : n < 128) : derLength (UInt8.ofNat n :: rest) = .ok (n, rest) := by
  have hlow : UInt8.ofNat n < 0x80 := by
    rw [UInt8.lt_iff_toNat_lt, toNat_ofNat (by omega)]
    exact hn
  rw [derLength, if_pos hlow, toNat_ofNat (by omega)]

theorem derLength_long {count : ℕ} (hcount : count < 128) : derLength (UInt8.ofNat (128 + count) :: rest) =
    if count = 0 ∨ count > 4 then Der.none
    else if rest.length < count then .error .outside
    else .ok (Bytes.ofBe (rest.take count), rest.drop count) := by
  have hhigh : ¬ UInt8.ofNat (128 + count) < 0x80 := by
    rw [UInt8.lt_iff_toNat_lt, toNat_ofNat (by omega)]
    exact Nat.not_lt.mpr (Nat.le_add_right 128 count)
  have hmask : (UInt8.ofNat (128 + count) &&& 0x7f).toNat = count := by
    rw [UInt8.toNat_and, toNat_ofNat (by omega), show (0x7f : UInt8).toNat = 2 ^ 7 - 1 from rfl,
      Nat.and_two_pow_sub_one_eq_mod]
    omega
  simp only [derLength, if_neg hhigh, hmask, Bytes.foldl_shiftLeft]

/-- **What is read as a length.** -/
theorem derLength_eq_ok :
    derLength input = .ok (length, rest) ↔ ∃ header, IsLength length header ∧ input = header ++ rest := by
  constructor
  · intro h
    rcases input with _ | ⟨first, raw⟩
    · cases h
    rcases byte_cases first with ⟨n, hn, rfl⟩ | ⟨count, hcount, rfl⟩
    · rw [derLength_short hn, Except.ok.injEq, Prod.mk.injEq] at h
      obtain ⟨rfl, rfl⟩ := h
      exact ⟨_, .short n hn, rfl⟩
    · rw [derLength_long hcount] at h
      split_ifs at h with hbad hcut
      · cases h
      rw [Except.ok.injEq, Prod.mk.injEq] at h
      obtain ⟨rfl, rfl⟩ := h
      have hlength : (raw.take count).length = count := List.length_take_of_le (Nat.le_of_not_lt hcut)
      refine ⟨_, .long (raw.take count) (by omega) (by omega), ?_⟩
      rw [hlength, List.cons_append, List.take_append_drop]
  · rintro ⟨header, hheader, rfl⟩
    cases hheader with
    | short _ hn => exact derLength_short hn
    | long raw hpos hcount =>
      rw [List.cons_append, derLength_long (by omega), if_neg (by omega), if_neg (by simp),
        List.take_left, List.drop_left]

theorem derLength_eq_outside : derLength input = .error .outside ↔ CutLength input := by
  constructor
  · intro h
    rcases input with _ | ⟨first, raw⟩
    · cases h
    rcases byte_cases first with ⟨n, hn, rfl⟩ | ⟨count, hcount, rfl⟩
    · rw [derLength_short hn] at h
      cases h
    · rw [derLength_long hcount] at h
      split_ifs at h with hbad hcut
      · cases h
      · exact ⟨count, raw, by omega, hcut, rfl⟩
  · rintro ⟨count, raw, hcount, hcut, rfl⟩
    rw [derLength_long (by omega), if_neg (by omega), if_pos hcut]

theorem derElement_cons (tag : UInt8) (raw : List UInt8) :
    derElement tag (tag :: raw) = derLength raw >>= fun p =>
      if p.2.length < p.1 then Der.none else pure (p.2.take p.1, p.2.drop p.1) := by
  simp [derElement]

/-- **What is read as an element.** -/
theorem derElement_eq_ok : derElement tag input = .ok (contents, rest) ↔ IsElement tag input contents rest := by
  constructor
  · intro h
    rcases input with _ | ⟨first, raw⟩
    · cases h
    by_cases htag : first = tag
    · subst htag
      rw [derElement_cons] at h
      obtain ⟨⟨length, after⟩, hlength, hread⟩ := Fallible.bind_eq_ok.mp h
      split_ifs at hread with hcut
      · cases hread
      · obtain ⟨header, hheader, rfl⟩ := derLength_eq_ok.mp hlength
        cases hread
        refine ⟨header, ?_, by rw [List.take_append_drop]⟩
        rwa [List.length_take_of_le (Nat.le_of_not_lt hcut)]
    · simp [derElement, htag, Der.none] at h
  · rintro ⟨header, hheader, rfl⟩
    rw [derElement_cons, derLength_eq_ok.mpr ⟨header, hheader, rfl⟩]
    simp [bind, Except.bind, pure, Except.pure]

theorem derElement_ne_outside : derElement tag input ≠ .error .outside ↔ ¬ CutOff tag input := by
  rcases input with _ | ⟨first, raw⟩
  · simp [derElement, Der.none, CutOff]
  by_cases htag : first = tag
  · subst htag
    rw [derElement_cons, Stop.bind_ne_outside, Ne, derLength_eq_outside]
    have hcut : CutOff first (first :: raw) ↔ CutLength raw := by simp [CutOff]
    rw [hcut, and_iff_left]
    rintro ⟨length, after⟩ -
    split_ifs <;> simp [Der.none, pure, Except.pure]
  · simp [derElement, htag, Der.none, CutOff]

/-- Past an element, a reader stays within its input just when it does after every element there may be. -/
theorem bind_derElement_ne_outside {α : Type} {f : List UInt8 × List UInt8 → Der α} :
    (derElement tag input >>= f) ≠ .error .outside ↔
      ¬ CutOff tag input ∧ ∀ contents rest, IsElement tag input contents rest →
        f (contents, rest) ≠ .error .outside := by
  simp only [Stop.bind_ne_outside, derElement_ne_outside, Prod.forall, derElement_eq_ok]

/-- The bytes of a number, without its sign byte. -/
def unsigned (value : List UInt8) : List UInt8 := if value.head? = some 0x00 then value.tail else value

theorem unsigned_eq_nil {value : List UInt8} : unsigned value = [] ↔ value = [] ∨ value = [0x00] := by
  rcases value with _ | ⟨first, _ | ⟨second, rest⟩⟩ <;> simp [unsigned]
  split_ifs <;> simp

theorem bind_derInteger_ne_outside {α : Type} {f : List UInt8 × List UInt8 → Der α} :
    (derInteger input >>= f) ≠ .error .outside ↔
      ¬ CutOff 0x02 input ∧ ∀ value rest, IsElement 0x02 input value rest → value ≠ [] → value ≠ [0x00] →
        f (unsigned value, rest) ≠ .error .outside := by
  have hinteger : derInteger input = derElement 0x02 input >>= fun p =>
      if unsigned p.1 = [] then Der.none else pure (unsigned p.1, p.2) := rfl
  rw [hinteger, bind_assoc, bind_derElement_ne_outside]
  refine and_congr_right fun _ => forall₂_congr fun value rest => imp_congr_right fun _ => ?_
  by_cases hnil : unsigned value = []
  · rcases unsigned_eq_nil.mp hnil with rfl | rfl <;> simp [hnil, Der.none, bind, Except.bind]
  · obtain ⟨hne, hzero⟩ := not_or.mp (mt unsigned_eq_nil.mpr hnil)
    simp [hnil, hne, hzero, pure, Except.pure, bind, Except.bind]

/-! ### When the reader stays within its input -/

/-- No length that is reached is cut off. -/
def Uncut (der : List UInt8) : Prop :=
  ¬ CutOff 0x30 der ∧ ∀ contents after, IsElement 0x30 der contents after →
  ¬ CutOff 0x30 contents ∧ ∀ algorithm key, IsElement 0x30 contents algorithm key →
  ¬ CutOff 0x03 key ∧ ∀ keyDer after, IsElement 0x03 key (0x00 :: keyDer) after →
  ¬ CutOff 0x30 keyDer ∧ ∀ numbers after, IsElement 0x30 keyDer numbers after →
  ¬ CutOff 0x02 numbers ∧ ∀ modulus exponent, IsElement 0x02 numbers modulus exponent →
    modulus ≠ [] → modulus ≠ [0x00] → ¬ CutOff 0x02 exponent

theorem spkiRsaKey_ne_outside {der : List UInt8} : spkiRsaKey der ≠ .error .outside ↔ Uncut der := by
  simp only [spkiRsaKey, derSequence, bind_derElement_ne_outside, Uncut]
  refine and_congr_right fun _ => forall₂_congr fun contents after => imp_congr_right fun _ => ?_
  refine and_congr_right fun _ => forall₂_congr fun algorithm key => imp_congr_right fun _ => ?_
  refine and_congr_right fun _ => ?_
  have hread : ∀ keyDer : List UInt8, ((derElement 0x30 keyDer >>= fun p => derInteger p.1 >>= fun p =>
      derInteger p.2 >>= fun q => (pure (p.1, q.1) : Der RsaKey)) ≠ .error .outside) ↔
        ¬ CutOff 0x30 keyDer ∧ ∀ numbers after, IsElement 0x30 keyDer numbers after →
          ¬ CutOff 0x02 numbers ∧ ∀ modulus exponent, IsElement 0x02 numbers modulus exponent →
            modulus ≠ [] → modulus ≠ [0x00] → ¬ CutOff 0x02 exponent := by
    intro keyDer
    simp [bind_derElement_ne_outside, bind_derInteger_ne_outside, pure, Except.pure]
  constructor
  · intro h keyDer after hkey
    exact (hread keyDer).mp (h _ after hkey)
  · intro h bits after hbits
    split
    · rename_i keyDer
      exact (hread keyDer).mpr (h keyDer after hbits)
    · simp [Der.none, bind, Except.bind]

/-! ### Keys as they are encoded -/

/-- The big-endian bytes of a number. -/
def magnitude (n : ℕ) : List UInt8 := Bytes.toBe (Nat.log 256 n + 1) n

/-- A length in DER, of at most 126 bytes. -/
def encodeLength (n : ℕ) : List UInt8 :=
  if n < 128 then [UInt8.ofNat n] else UInt8.ofNat (128 + (magnitude n).length) :: magnitude n

/-- An element in DER. -/
def encodeElement (tag : UInt8) (contents : List UInt8) : List UInt8 :=
  tag :: (encodeLength contents.length ++ contents)

/-- A number in DER: a sign byte stands before a first byte with its top bit set. -/
def encodeInteger (n : ℕ) : List UInt8 :=
  encodeElement 0x02 (if 0x80 ≤ (magnitude n).headD 0 then 0x00 :: magnitude n else magnitude n)

/-- The algorithm identifier of these contents, and the bit string of an RSA key. -/
def spkiContents (algorithm : List UInt8) (modulus exponent : ℕ) : List UInt8 :=
  encodeElement 0x30 algorithm ++
    encodeElement 0x03 (0x00 :: encodeElement 0x30 (encodeInteger modulus ++ encodeInteger exponent))

/-- A `SubjectPublicKeyInfo` in DER. -/
def encodeSpki (algorithm : List UInt8) (modulus exponent : ℕ) : List UInt8 :=
  encodeElement 0x30 (spkiContents algorithm modulus exponent)

/-- The greatest length that is read, in bytes. -/
def lengthLimit : ℕ := 2 ^ 32

theorem length_magnitude (n : ℕ) : (magnitude n).length = Nat.log 256 n + 1 := Bytes.length_toBe ..

theorem ofBe_magnitude (n : ℕ) : Bytes.ofBe (magnitude n) = n :=
    Bytes.ofBe_toBe (Nat.lt_pow_succ_log_self (by decide) n)

theorem magnitude_le_iff {count : ℕ} (hpos : 0 < count) : (magnitude n).length ≤ count ↔ n < 256 ^ count := by
  rw [length_magnitude, Nat.succ_le_iff]
  exact ⟨Nat.lt_pow_of_log_lt (by decide), Nat.log_lt_of_lt_pow' hpos.ne'⟩

theorem head_magnitude (hn : 0 < n) : ∃ first rest, magnitude n = first :: rest ∧ first ≠ 0 := by
  refine ⟨_, _, Bytes.toBe_succ .., fun hzero => ?_⟩
  have hlow : 1 ≤ n / 256 ^ Nat.log 256 n := Nat.div_pos (Nat.pow_log_le_self 256 hn.ne') (Nat.pow_pos (by decide))
  have hhigh : n / 256 ^ Nat.log 256 n < 256 := by
    rw [Nat.div_lt_iff_lt_mul (Nat.pow_pos (by decide)), ← Nat.pow_succ']
    exact Nat.lt_pow_succ_log_self (by decide) n
  have hbyte := congrArg UInt8.toNat hzero
  rw [toNat_ofNat hhigh, UInt8.toNat_zero] at hbyte
  omega

theorem isLength_encodeLength (h : n < lengthLimit) : IsLength n (encodeLength n) := by
  unfold encodeLength
  split_ifs with hshort
  · exact .short n hshort
  · have hlong := IsLength.long (magnitude n) (by simp [length_magnitude]) ((magnitude_le_iff (by decide)).mpr h)
    rwa [ofBe_magnitude] at hlong

theorem isElement_encodeElement (h : contents.length < lengthLimit) :
    IsElement tag (encodeElement tag contents ++ rest) contents rest :=
  ⟨_, isLength_encodeLength h, by simp [encodeElement]⟩

theorem length_encodeElement (tag : UInt8) (contents : List UInt8) :
    (encodeElement tag contents).length = 1 + (encodeLength contents.length).length + contents.length := by
  simp [encodeElement]
  omega

theorem length_le_encodeElement (tag : UInt8) (contents : List UInt8) :
    contents.length < (encodeElement tag contents).length := by
  rw [length_encodeElement]
  omega

theorem derElement_encodeElement (h : contents.length < lengthLimit) :
    derElement tag (encodeElement tag contents ++ rest) = .ok (contents, rest) :=
  derElement_eq_ok.mpr (isElement_encodeElement h)

theorem derInteger_encodeInteger (hn : 0 < n) (h : (encodeInteger n).length < lengthLimit) :
    derInteger (encodeInteger n ++ rest) = .ok (magnitude n, rest) := by
  obtain ⟨first, others, hfirst, hzero⟩ := head_magnitude hn
  have hlength := Nat.lt_trans (length_le_encodeElement 0x02 _) h
  rw [derInteger, encodeInteger, derElement_encodeElement hlength]
  split_ifs
  · simp [bind, Except.bind, pure, Except.pure, hfirst]
  · simp [bind, Except.bind, pure, Except.pure, hfirst, hzero]

theorem spkiRsaKey_encodeSpki {algorithm : List UInt8} {modulus exponent : ℕ} (hmodulus : 0 < modulus)
    (hexponent : 0 < exponent) (h : (spkiContents algorithm modulus exponent).length < lengthLimit) :
    spkiRsaKey (encodeSpki algorithm modulus exponent) = .ok (magnitude modulus, magnitude exponent) := by
  have halgorithm := length_le_encodeElement 0x30 algorithm
  have hbits := length_le_encodeElement 0x03
    (0x00 :: encodeElement 0x30 (encodeInteger modulus ++ encodeInteger exponent))
  have hnumbers := length_le_encodeElement 0x30 (encodeInteger modulus ++ encodeInteger exponent)
  simp only [spkiContents, List.length_append, List.length_cons] at h hbits hnumbers
  have hspki := @derElement_encodeElement 0x30 (spkiContents algorithm modulus exponent) []
    (by simp [spkiContents]; omega)
  have hkey := @derElement_encodeElement 0x03
    (0x00 :: encodeElement 0x30 (encodeInteger modulus ++ encodeInteger exponent)) [] (by simp; omega)
  have hrsa := @derElement_encodeElement 0x30 (encodeInteger modulus ++ encodeInteger exponent) [] (by simp; omega)
  have hexp := @derInteger_encodeInteger [] exponent hexponent (by omega)
  rw [List.append_nil] at hspki hkey hrsa hexp
  rw [spkiRsaKey, derSequence, encodeSpki, hspki]
  simp only [bind, Except.bind]
  rw [spkiContents, derElement_encodeElement (by omega)]
  simp only [hkey, hrsa, pure, Except.pure, derInteger_encodeInteger hmodulus (show _ < lengthLimit by omega), hexp]

theorem derElement_beyond (hlow : lengthLimit ≤ contents.length) (hhigh : contents.length < 256 ^ 126) :
    derElement tag (encodeElement tag contents) = Der.none := by
  have hlong : ¬ contents.length < 128 := Nat.not_lt.mpr (Nat.le_trans (by decide) hlow)
  have hcount : 4 < (magnitude contents.length).length :=
    Nat.lt_of_not_le fun hle => absurd ((magnitude_le_iff (by decide)).mp hle) (Nat.not_lt.mpr hlow)
  have hbound : (magnitude contents.length).length ≤ 126 := (magnitude_le_iff (by decide)).mpr hhigh
  rw [encodeElement, derElement_cons, encodeLength, if_neg hlong, List.cons_append, derLength_long (by omega),
    if_pos (.inr hcount)]
  rfl

/-- **The reader is exact** as far as no length is cut off, for encodings of so many bytes. -/
theorem spkiRsaKey_exact_iff (der algorithm : List UInt8) (modulus exponent : ℕ) :
    (spkiRsaKey der ≠ .error .outside ↔ Uncut der) ∧
      (0 < modulus → 0 < exponent → (spkiContents algorithm modulus exponent).length < 256 ^ 126 →
        (spkiRsaKey (encodeSpki algorithm modulus exponent) = .ok (magnitude modulus, magnitude exponent) ↔
          (spkiContents algorithm modulus exponent).length < lengthLimit)) := by
  refine ⟨spkiRsaKey_ne_outside, fun hmodulus hexponent hder =>
    ⟨fun hread => ?_, spkiRsaKey_encodeSpki hmodulus hexponent⟩⟩
  by_contra hbeyond
  rw [spkiRsaKey, derSequence, encodeSpki, derElement_beyond (Nat.le_of_not_lt hbeyond) hder] at hread
  cases hread

theorem spkiRsaKey_exact_small :
    spkiRsaKey (encodeSpki [0x06, 0x09, 0x2a, 0x86, 0x48, 0x86, 0xf7, 0x0d, 0x01, 0x01, 0x01, 0x05, 0x00] 50021 65537) =
      .ok (magnitude 50021, magnitude 65537) :=
  ((spkiRsaKey_exact_iff [] _ _ _).2 (by decide) (by decide) (by decide +kernel)).mpr (by decide +kernel)

/-- The length of this element has two bytes, and the input one of them. -/
theorem cut_length : ¬ spkiRsaKey [0x30, 0x82, 0x01] ≠ .error .outside := by decide

end Omnion.Identity.Saml
