import Mathlib.Tactic.SplitIfs
import Omnion.Identity.Secrets

/-!
# Sealed archives

The frame of an encrypted artifact, of `crates/backup/src/crypto.rs`, and `ArtifactSealer` of `routes/backups.rs`, through
which every part of a backup is written and read. Key derivation and the cipher come from other crates and are a
parameter; the salt and the nonce, which are drawn at random, are arguments.
-/

namespace Omnion.Backup

/-- What the crates `hkdf` and `aes_gcm` do. -/
structure Primitives where
  /-- `Hkdf::<Sha256>::new` of a salt and a passphrase, then `expand` of an info to 32 bytes. -/
  hkdf : List UInt8 → List UInt8 → List UInt8 → Option (Vector UInt8 32)
  /-- `Aes256Gcm::encrypt` with a key, a nonce and associated data. -/
  encrypt : Vector UInt8 32 → List UInt8 → List UInt8 → List UInt8 → Option (List UInt8)
  /-- `Aes256Gcm::decrypt`. -/
  decrypt : Vector UInt8 32 → List UInt8 → List UInt8 → List UInt8 → Option (List UInt8)

/-- The cipher is authenticated: it decrypts just what it encrypts. -/
def Primitives.Sound (P : Primitives) : Prop := ∀ key nonce aad message sealed,
  P.decrypt key nonce aad sealed = some message ↔ P.encrypt key nonce aad message = some sealed

/-- The first four bytes of every encrypted artifact. -/
def MAGIC : List UInt8 := Identity.asciiBytes "OMN1".toList

/-- The length of the salt. -/
def SALT_LEN : ℕ := 16

/-- The length of the nonce. -/
def NONCE_LEN : ℕ := 12

/-- What an artifact adds to the ciphertext. -/
def OVERHEAD : ℕ := MAGIC.length + SALT_LEN + NONCE_LEN

/-- The label of the key. -/
def KDF_INFO : List UInt8 := Identity.asciiBytes "omnion-backup/artifact/v1".toList

/-- `CryptoError`, and the refusal of a sealer without a passphrase. -/
inductive CryptoError where
  | notEncrypted
  | notADecryptedArchive
  | emptyPassphrase
  | undecryptable
  | noPassphrase

variable {P : Primitives} {passphrase bytes message ciphertext : List UInt8} {salt : Vector UInt8 SALT_LEN}
  {nonce : Vector UInt8 NONCE_LEN}

/-- The key of one artifact; a failure to derive one leaves it zero. -/
def derive (P : Primitives) (passphrase salt : List UInt8) : Vector UInt8 32 :=
  (P.hkdf salt passphrase KDF_INFO).getD (Vector.replicate 32 0)

/-- An artifact: the magic, the salt, the nonce and the ciphertext. -/
def frame (salt : Vector UInt8 SALT_LEN) (nonce : Vector UInt8 NONCE_LEN) (ciphertext : List UInt8) : List UInt8 :=
  MAGIC ++ (salt.toList ++ (nonce.toList ++ ciphertext))

/-- `seal`. -/
def sealArchive (P : Primitives) (passphrase : List UInt8) (salt : Vector UInt8 SALT_LEN) (nonce : Vector UInt8 NONCE_LEN)
    (plaintext : List UInt8) : Except CryptoError (List UInt8) :=
  if passphrase = [] then .error .emptyPassphrase
  else match P.encrypt (derive P passphrase salt.toList) nonce.toList MAGIC plaintext with
    | some ciphertext => .ok (frame salt nonce ciphertext)
    | none => .error .undecryptable

/-- Whether the bytes carry the frame. -/
def isSealed (bytes : List UInt8) : Bool := OVERHEAD ≤ bytes.length && bytes.take MAGIC.length = MAGIC

/-- `open`. -/
def openArchive (P : Primitives) (passphrase bytes : List UInt8) : Except CryptoError (List UInt8) :=
  if bytes.length < OVERHEAD then
    if MAGIC.length ≤ bytes.length ∧ bytes.take MAGIC.length = MAGIC then .error .notADecryptedArchive
    else .error .notEncrypted
  else if bytes.take MAGIC.length ≠ MAGIC then .error .notEncrypted
  else
    let salt := (bytes.drop MAGIC.length).take SALT_LEN
    let nonce := (bytes.drop (MAGIC.length + SALT_LEN)).take NONCE_LEN
    match P.decrypt (derive P passphrase salt) nonce MAGIC (bytes.drop OVERHEAD) with
    | some message => .ok message
    | none => .error .undecryptable

/-- How the artifacts of a run are written. No passphrase that `resolve_passphrase` gives is empty. -/
structure ArtifactSealer where
  passphrase : Option { p : List UInt8 // p ≠ [] }

/-- The bytes verification compares a checksum over. -/
def ArtifactSealer.read (P : Primitives) (sealer : ArtifactSealer) (bytes : List UInt8) :
    Except CryptoError (List UInt8) :=
  if isSealed bytes = false then .ok bytes
  else match sealer.passphrase with
    | none => .error .noPassphrase
    | some passphrase => openArchive P passphrase bytes

theorem length_frame : (frame salt nonce ciphertext).length = OVERHEAD + ciphertext.length := by
  simp [OVERHEAD, frame, Nat.add_assoc]

theorem isSealed_frame : isSealed (frame salt nonce ciphertext) = true := by
  rw [isSealed, length_frame]
  simp [frame]

theorem eq_frame_of_isSealed (h : isSealed bytes = true) :
    ∃ salt nonce ciphertext, bytes = frame salt nonce ciphertext := by
  rw [isSealed, Bool.and_eq_true, decide_eq_true_iff, decide_eq_true_iff] at h
  obtain ⟨hlength, hmagic⟩ := h
  have hoverhead : OVERHEAD = 32 := rfl
  have hnonce : bytes.drop 20 = (bytes.drop 20).take 12 ++ bytes.drop 32 := by
    rw [show bytes.drop 32 = (bytes.drop 20).drop 12 by simp, List.take_append_drop]
  have hsalt : bytes.drop 4 = (bytes.drop 4).take 16 ++ bytes.drop 20 := by
    rw [show bytes.drop 20 = (bytes.drop 4).drop 16 by simp, List.take_append_drop]
  refine ⟨⟨((bytes.drop 4).take 16).toArray, by simp [SALT_LEN]; omega⟩,
    ⟨((bytes.drop 20).take 12).toArray, by simp [NONCE_LEN]; omega⟩, bytes.drop 32, ?_⟩
  show bytes = MAGIC ++ ((bytes.drop 4).take 16 ++ ((bytes.drop 20).take 12 ++ bytes.drop 32))
  rw [← hnonce, ← hsalt, ← hmagic]
  exact (List.take_append_drop 4 bytes).symm

theorem openArchive_frame : openArchive P passphrase (frame salt nonce ciphertext) = .ok message ↔
    P.decrypt (derive P passphrase salt.toList) nonce.toList MAGIC ciphertext = some message := by
  have hlength : ¬ (frame salt nonce ciphertext).length < OVERHEAD := by simp [length_frame]
  have hmagic : ¬ (frame salt nonce ciphertext).take MAGIC.length ≠ MAGIC := not_not.mpr List.take_left
  have hsalt : (frame salt nonce ciphertext).drop MAGIC.length = salt.toList ++ (nonce.toList ++ ciphertext) :=
    List.drop_left
  have hnonce : (frame salt nonce ciphertext).drop (MAGIC.length + SALT_LEN) = nonce.toList ++ ciphertext := by
    rw [← List.drop_drop, hsalt, List.drop_left' salt.length_toList]
  have hrest : (frame salt nonce ciphertext).drop OVERHEAD = ciphertext := by
    rw [OVERHEAD, ← List.drop_drop, hnonce, List.drop_left' nonce.length_toList]
  simp only [openArchive, if_neg hlength, if_neg hmagic, hsalt, hnonce, hrest, List.take_left' salt.length_toList,
    List.take_left' nonce.length_toList]
  split <;> simp_all

theorem sealArchive_eq_ok (h : passphrase ≠ []) : sealArchive P passphrase salt nonce message = .ok bytes ↔
    ∃ ciphertext, bytes = frame salt nonce ciphertext ∧
      P.encrypt (derive P passphrase salt.toList) nonce.toList MAGIC message = some ciphertext := by
  rw [sealArchive, if_neg h]
  cases P.encrypt (derive P passphrase salt.toList) nonce.toList MAGIC message <;> simp [eq_comm]

/-- **What is read** is what does not carry the frame, as it is, and what was sealed with the passphrase. -/
theorem ArtifactSealer.read_eq_ok_iff (hP : P.Sound) {sealer : ArtifactSealer} :
    sealer.read P bytes = .ok message ↔ (isSealed bytes = false ∧ message = bytes) ∨
      ∃ passphrase salt nonce, sealer.passphrase = some passphrase ∧
        sealArchive P passphrase salt nonce message = .ok bytes := by
  constructor
  · intro h
    rw [read] at h
    split_ifs at h with hbytes
    · cases h
      exact .inl ⟨hbytes, rfl⟩
    · split at h
      · cases h
      · rename_i passphrase hpass
        obtain ⟨salt, nonce, ciphertext, rfl⟩ := eq_frame_of_isSealed (eq_true_of_ne_false hbytes)
        have hencrypt := (hP _ _ _ _ _).mp (openArchive_frame.mp h)
        exact .inr ⟨passphrase, salt, nonce, hpass, (sealArchive_eq_ok passphrase.2).mpr ⟨ciphertext, rfl, hencrypt⟩⟩
  · rintro (⟨hbytes, rfl⟩ | ⟨passphrase, salt, nonce, hpass, hsealed⟩)
    · rw [read, if_pos hbytes]
    · obtain ⟨ciphertext, rfl, hencrypt⟩ := (sealArchive_eq_ok passphrase.2).mp hsealed
      rw [read, if_neg (ne_false_of_eq_true isSealed_frame), hpass]
      exact openArchive_frame.mpr ((hP _ _ _ _ _).mpr hencrypt)

/-- Primitives whose key is the passphrase and whose tag is half of the key. -/
def examplePrimitives : Primitives where
  hkdf _ passphrase _ := some (Vector.ofFn fun i => passphrase.getD i 0)
  encrypt key _ _ message := some (message ++ key.toList.take 16)
  decrypt key _ _ sealed :=
    let message := sealed.take (sealed.length - 16)
    if sealed = message ++ key.toList.take 16 then some message else none

theorem examplePrimitives_sound : examplePrimitives.Sound := by
  intro key nonce aad message sealed
  constructor
  · intro h
    simp only [examplePrimitives] at h
    split_ifs at h with htag
    cases h
    exact congrArg some htag.symm
  · intro h
    cases h
    simp [examplePrimitives]

theorem read_document : (⟨some ⟨[7], by decide⟩⟩ : ArtifactSealer).read examplePrimitives (frame (.replicate 16 1)
    (.replicate 12 2) ([0x7b, 0x7d, 7] ++ List.replicate 15 0)) = .ok [0x7b, 0x7d] :=
  (ArtifactSealer.read_eq_ok_iff examplePrimitives_sound).mpr
    (.inr ⟨_, .replicate 16 1, .replicate 12 2, rfl, (sealArchive_eq_ok (by decide)).mpr ⟨_, rfl, rfl⟩⟩)

end Omnion.Backup
