import Omnion.Library.Bytes
import Omnion.Library.Words

/-!
# Secret envelopes

`crates/identity/src/secrets.rs`: how the secret of a second factor is stored. The hash
functions come from other crates and are a parameter, `Hashes`; so is the nonce.

## What is proved

* `envelope_exact` — and what is opened at all is a text of the four parts, with the tag of
  the nonce and the ciphertext that are then decrypted.
-/

namespace Omnion.Identity

/-- The output of a hash function, of `n` bytes. -/
structure Digest (n : ℕ) where
  bytes : List UInt8
  /-- There are as many as the function makes. -/
  length : bytes.length = n

def Digest.get {n : ℕ} (d : Digest n) (i : ℕ) (h : i < n) : UInt8 := d.bytes.get ⟨i, d.length.symm ▸ h⟩

def Digest.zeros (n : ℕ) : Digest n := ⟨List.replicate n 0, List.length_replicate⟩

/-- The hash functions of the `sha1`, `sha2` and `hmac` crates. -/
structure Hashes where
  /-- `Sha256`. -/
  sha256 : List UInt8 → Digest 32
  /-- `Hmac<Sha1>`, of a key and a message. -/
  hmacSha1 : List UInt8 → List UInt8 → Digest 20
  /-- `Hmac<Sha256>`, of a key and a message. -/
  hmacSha256 : List UInt8 → List UInt8 → Digest 32

/-- The bytes of a text of ASCII characters. -/
def asciiBytes (text : List Char) : List UInt8 := text.map fun c => UInt8.ofNat c.toNat

namespace Hex

/-- The value of a digit. -/
def value (c : Char) : Option ℕ :=
  if '0' ≤ c ∧ c ≤ '9' then some (c.toNat - '0'.toNat)
  else if 'a' ≤ c ∧ c ≤ 'f' then some (c.toNat - 'a'.toNat + 10)
  else if 'A' ≤ c ∧ c ≤ 'F' then some (c.toNat - 'A'.toNat + 10)
  else none

/-- A digit, in lower case. -/
def digit (n : ℕ) : Char := if n < 10 then Char.ofNat ('0'.toNat + n) else Char.ofNat ('a'.toNat + (n - 10))

/-- `hex::encode`. -/
def encode (raw : List UInt8) : List Char := raw.flatMap fun byte => [digit (byte.toNat / 16), digit (byte.toNat % 16)]

/-- `hex::decode`. -/
def decode : List Char → Option (List UInt8)
  | [] => some []
  | [_] => none
  | high :: low :: rest => do
    let high ← value high
    let low ← value low
    let rest ← decode rest
    pure (UInt8.ofNat (high * 16 + low) :: rest)

theorem value_digit : ∀ n < 16, value (digit n) = some n ∧ digit n ≠ '.' := by decide

theorem decode_encode (raw : List UInt8) : decode (encode raw) = some raw := by
  induction raw with
  | nil => rfl
  | cons byte raw ih =>
    have hbyte := byte.toNat_lt
    have hhigh := (value_digit (byte.toNat / 16) (by omega)).1
    have hlow := (value_digit (byte.toNat % 16) (by omega)).1
    have hsum : byte.toNat / 16 * 16 + byte.toNat % 16 = byte.toNat := Nat.div_add_mod' ..
    change decode (digit (byte.toNat / 16) :: digit (byte.toNat % 16) :: encode raw) = _
    rw [decode, hhigh, hlow, ih]
    simp only [Option.bind_eq_bind, Option.bind_some, hsum, UInt8.ofNat_toNat]
    rfl

theorem dot_notMem_of_decode {text : List Char} {raw : List UInt8} (h : decode text = some raw) : '.' ∉ text := by
  induction text using decode.induct generalizing raw with
  | case1 => simp
  | case2 => cases h
  | case3 high low rest ih =>
    rw [decode] at h
    obtain ⟨n, hhigh, h⟩ := Option.bind_eq_some_iff.mp h
    obtain ⟨m, hlow, h⟩ := Option.bind_eq_some_iff.mp h
    obtain ⟨others, hrest, -⟩ := Option.bind_eq_some_iff.mp h
    have hvalue : value '.' = none := by decide
    simp only [List.mem_cons, not_or]
    refine ⟨?_, ?_, ih hrest⟩
    · rintro rfl
      rw [hvalue] at hhigh
      cases hhigh
    · rintro rfl
      rw [hvalue] at hlow
      cases hlow

theorem dot_notMem_encode (raw : List UInt8) : '.' ∉ encode raw := by
  intro hdot
  obtain ⟨byte, -, hmem⟩ := List.mem_flatMap.mp hdot
  have hbyte := byte.toNat_lt
  rcases List.mem_cons.mp hmem with hhigh | hlow
  · exact (value_digit (byte.toNat / 16) (by omega)).2 hhigh.symm
  · exact (value_digit (byte.toNat % 16) (by omega)).2 (List.mem_singleton.mp hlow).symm

end Hex

/-- Version tag of the envelope format. -/
def envelopeVersion : List Char := ['v', '1']

def nonceBytes : ℕ := 16

/-- Domain separation for the keystream. -/
def keystreamLabel : List UInt8 := asciiBytes "omnion.secret.keystream.v1".toList

/-- Domain separation for the MAC. -/
def macLabel : List UInt8 := asciiBytes "omnion.secret.tag.v1".toList

/-- A key that encrypts and decrypts secret envelopes. -/
structure SecretBox where
  key : Digest 32

namespace SecretBox

variable {hashes : Hashes} {box : SecretBox} {nonce plaintext : List UInt8}

def keystream (hashes : Hashes) (box : SecretBox) (nonce : List UInt8) (block : ℕ) : Digest 32 :=
  hashes.sha256 (box.key.bytes ++ keystreamLabel ++ nonce ++ Bytes.toBe 4 block)

/-- XOR `buffer` with the keystream of `nonce`: byte `i` is in block `i / 32`. -/
def applyKeystream (hashes : Hashes) (box : SecretBox) (nonce buffer : List UInt8) : List UInt8 :=
  buffer.mapIdx fun i byte => byte ^^^ (box.keystream hashes nonce (i / 32)).get (i % 32) (Nat.mod_lt _ (by decide))

/-- HMAC-SHA256 over the nonce and ciphertext. -/
def tag (hashes : Hashes) (box : SecretBox) (nonce ciphertext : List UInt8) : List UInt8 :=
  (hashes.hmacSha256 box.key.bytes (macLabel ++ nonce ++ ciphertext)).bytes

/-- Encrypt `plaintext` into an envelope. -/
def encrypt (hashes : Hashes) (box : SecretBox) (nonce plaintext : List UInt8) : String :=
  let ciphertext := box.applyKeystream hashes nonce plaintext
  String.ofList (['.'].intercalate
    [envelopeVersion, Hex.encode nonce, Hex.encode ciphertext, Hex.encode (box.tag hashes nonce ciphertext)])

/-- Decrypt an envelope; `none` where the code answers `IdentityError::Crypto`. -/
def decrypt (hashes : Hashes) (box : SecretBox) (envelope : String) : Option (List UInt8) :=
  match envelope.toList.splitOn '.' with
  | [version, nonceHex, cipherHex, tagHex] => do
    if version ≠ envelopeVersion then none
    let nonce ← Hex.decode nonceHex
    let ciphertext ← Hex.decode cipherHex
    let found ← Hex.decode tagHex
    if nonce.length ≠ nonceBytes then none
    if box.tag hashes nonce ciphertext ≠ found then none
    pure (box.applyKeystream hashes nonce ciphertext)
  | _ => none

theorem applyKeystream_applyKeystream (nonce buffer : List UInt8) :
    box.applyKeystream hashes nonce (box.applyKeystream hashes nonce buffer) = buffer :=
  List.ext_getElem (by simp [applyKeystream]) fun i _ _ => by
    simp only [applyKeystream, List.getElem_mapIdx]
    rw [UInt8.xor_assoc, UInt8.xor_self, UInt8.xor_zero]

/-- The text is the version, a nonce, a ciphertext and the tag of these two, in hexadecimal. -/
structure Sealed (hashes : Hashes) (box : SecretBox) (envelope : String) (nonce ciphertext : List UInt8) : Prop where
  length : nonce.length = nonceBytes
  parts : ∃ nonceHex cipherHex tagHex,
    envelope.toList = ['.'].intercalate [envelopeVersion, nonceHex, cipherHex, tagHex] ∧
      Hex.decode nonceHex = some nonce ∧ Hex.decode cipherHex = some ciphertext ∧
        Hex.decode tagHex = some (box.tag hashes nonce ciphertext)

/-- **What is opened** is sealed, and the ciphertext that the tag is of is decrypted. -/
theorem decrypt_eq_some {envelope : String} : box.decrypt hashes envelope = some plaintext ↔
    ∃ nonce ciphertext, Sealed hashes box envelope nonce ciphertext ∧
      plaintext = box.applyKeystream hashes nonce ciphertext := by
  constructor
  · intro h
    rw [decrypt] at h
    split at h
    · rename_i version nonceHex cipherHex tagHex hsplit
      obtain ⟨-, -, htext⟩ := Words.splitOn_eq_iff.mp hsplit
      by_cases hversion : version = envelopeVersion
      · subst hversion
        rcases hnonce : Hex.decode nonceHex with _ | nonce
        · simp [hnonce] at h
        rcases hcipher : Hex.decode cipherHex with _ | ciphertext
        · simp [hnonce, hcipher] at h
        rcases htag : Hex.decode tagHex with _ | found
        · simp [hnonce, hcipher, htag] at h
        by_cases hlength : nonce.length = nonceBytes
        · by_cases hfound : box.tag hashes nonce ciphertext = found
          · have hplain : box.applyKeystream hashes nonce ciphertext = plaintext := by
              simpa [hnonce, hcipher, htag, hlength, hfound] using h
            exact ⟨nonce, ciphertext, ⟨hlength, nonceHex, cipherHex, tagHex, htext.symm, hnonce,
              hcipher, hfound ▸ htag⟩,
              hplain.symm⟩
          · simp [hnonce, hcipher, htag, hfound] at h
        · simp [hnonce, hcipher, htag, hlength] at h
      · simp [hversion] at h
    · cases h
  · rintro ⟨nonce, ciphertext, ⟨hlength, nonceHex, cipherHex, tagHex, htext, hnonce, hcipher, htag⟩, rfl⟩
    have hparts : envelope.toList.splitOn '.' = [envelopeVersion, nonceHex, cipherHex, tagHex] := by
      refine Words.splitOn_eq_iff.mpr ⟨by simp, ?_, htext.symm⟩
      simp [Hex.dot_notMem_of_decode hnonce, Hex.dot_notMem_of_decode hcipher, Hex.dot_notMem_of_decode htag,
        envelopeVersion]
    simp [decrypt, hparts, hnonce, hcipher, htag, hlength]

/-- **An envelope is opened to what was put in.** -/
theorem decrypt_encrypt (hnonce : nonce.length = nonceBytes) :
    box.decrypt hashes (box.encrypt hashes nonce plaintext) = some plaintext := by
  have hsplit : ∀ parts : List (List Char), (∀ part ∈ parts, '.' ∉ part) → parts ≠ [] →
      (['.'].intercalate parts).splitOn '.' = parts := fun _ => List.splitOn_intercalate '.'
  have hparts : ∀ part ∈ [envelopeVersion, Hex.encode nonce, Hex.encode (box.applyKeystream hashes nonce plaintext),
      Hex.encode (box.tag hashes nonce (box.applyKeystream hashes nonce plaintext))], '.' ∉ part := by
    simp [Hex.dot_notMem_encode, envelopeVersion]
  rw [encrypt, decrypt, String.toList_ofList, hsplit _ hparts (by simp)]
  simp [Hex.decode_encode, hnonce, applyKeystream_applyKeystream]

/-- **Envelopes.** With every key, what was put in is what comes out, and a text that is opened
at all is one of the four parts, whose tag is that of the nonce and the ciphertext decrypted. -/
theorem envelope_exact (hashes : Hashes) (box : SecretBox) :
    (∀ nonce plaintext, nonce.length = nonceBytes →
      box.decrypt hashes (box.encrypt hashes nonce plaintext) = some plaintext) ∧
    ∀ envelope plaintext, box.decrypt hashes envelope = some plaintext ↔
      ∃ nonce ciphertext, Sealed hashes box envelope nonce ciphertext ∧
        plaintext = box.applyKeystream hashes nonce ciphertext :=
  ⟨fun _ _ => decrypt_encrypt, fun _ _ => decrypt_eq_some⟩

/-- The hash functions, on what the envelope of `[1, 2]` with a key and a nonce of zeros needs. -/
def zeroHashes : Hashes where
  sha256 _ := ⟨[3, 99, 158, 15, 219, 195, 153, 131, 20, 145, 233, 188, 205, 124, 204, 199,
    176, 250, 231, 127, 30, 49, 58, 80, 123, 214, 184, 219, 200, 36, 3, 93], rfl⟩
  hmacSha1 _ _ := .zeros 20
  hmacSha256 _ _ := ⟨[143, 255, 151, 223, 93, 93, 245, 59, 160, 132, 2, 117, 47, 81, 96, 120,
    76, 207, 74, 212, 215, 217, 14, 125, 100, 235, 179, 187, 194, 219, 146, 247], rfl⟩

theorem envelope_exact_zeros : (SecretBox.mk (.zeros 32)).decrypt zeroHashes
    ((SecretBox.mk (.zeros 32)).encrypt zeroHashes (List.replicate 16 0) [1, 2]) = some [1, 2] :=
  (envelope_exact zeroHashes (.mk (.zeros 32))).1 _ _ List.length_replicate

end SecretBox

end Omnion.Identity
