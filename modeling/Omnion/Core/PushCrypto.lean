import Omnion.Core.Base64Url
import Omnion.Library.Bytes
import Omnion.Library.Fallible

/-!
# The body of a Web Push message

`crates/core/src/push_crypto.rs`: the encryption of one body, its header, and next to it the
receiver of RFC 8291 and RFC 8188 that a browser is.

## The model

Curve points, key derivation and the cipher come from other crates and are a parameter,
`Primitives`; `Primitives.Sound` is what their documentation promises. A record of the receiver
is decrypted without associated data, and its plaintext ends with a delimiter and zeros.

## What is proved

* `readWithHeader_encrypt` — a reader that passes the header as associated data and takes the
  plaintext as it is reads every body.
* `encrypt_never_received` — the receiver of the specifications reads none of the bodies of this module.

## Honest scope

The receiver accepts bodies of several records, as RFC 8188 allows. That a body is sent, and to
whom, is not modelled.
-/

namespace Omnion.PushCrypto

/-- What the crates `p256`, `hkdf` and `aes_gcm` do. -/
structure Primitives (Point Scalar : Type) where
  /-- `PublicKey::from_sec1_bytes`. -/
  parsePoint : List UInt8 → Option Point
  /-- `to_encoded_point(false)`. -/
  encodePoint : Point → List UInt8
  /-- `SecretKey::from_slice`. -/
  parseScalar : List UInt8 → Option Scalar
  /-- `SecretKey::public_key`. -/
  publicKey : Scalar → Point
  /-- `diffie_hellman`. -/
  diffieHellman : Scalar → Point → List UInt8
  /-- `Hkdf::<Sha256>::new` of a salt and a key, then `expand` of an info. It fails for lengths it cannot make. -/
  hkdf : List UInt8 → List UInt8 → List UInt8 → (n : ℕ) → Option (Vector UInt8 n)
  /-- `Aes128Gcm::encrypt` with a key, a nonce and associated data. It fails for lengths it cannot take. -/
  gcmEncrypt : Vector UInt8 16 → Vector UInt8 12 → List UInt8 → List UInt8 → Option (List UInt8)
  /-- `Aes128Gcm::decrypt`. -/
  gcmDecrypt : Vector UInt8 16 → Vector UInt8 12 → List UInt8 → List UInt8 → Option (List UInt8)

variable {Point Scalar : Type} {P : Primitives Point Scalar}

/-- What the documentation of the crates promises. -/
structure Primitives.Sound (P : Primitives Point Scalar) : Prop where
  /-- An encoded point is read back, -/
  parse_encode : ∀ p, P.parsePoint (P.encodePoint p) = some p
  /-- and has 65 bytes. -/
  length_encode : ∀ p, (P.encodePoint p).length = 65
  /-- Both sides of an agreement come to the same secret. -/
  agree : ∀ a b, P.diffieHellman a (P.publicKey b) = P.diffieHellman b (P.publicKey a)
  /-- What was encrypted is decrypted. -/
  decrypt_encrypt : ∀ key nonce aad message sealed,
    P.gcmEncrypt key nonce aad message = some sealed → P.gcmDecrypt key nonce aad sealed = some message
  /-- A ciphertext is its plaintext and a tag of 16 bytes. -/
  length_decrypt : ∀ key nonce aad sealed message,
    P.gcmDecrypt key nonce aad sealed = some message → sealed.length = message.length + 16

/-- A text of ASCII characters, as bytes. -/
def ascii (text : String) : List UInt8 := text.toList.map fun c => UInt8.ofNat c.toNat

/-- The record size this module writes. -/
def RECORD_SIZE : ℕ := 4096

/-- A subscriber's two public keys, as the browser handed them over. -/
structure SubscriberKeys where
  p256dh : List UInt8
  auth : List UInt8

/-- What one encrypted body is made of. -/
structure EncryptedBody where
  body : List UInt8
  deriving DecidableEq

/-- Why a body could not be built. -/
inductive CryptoError where
  | badPublicKey
  | badAuthSecret (length : ℕ)
  | noRandomness
  | encrypt

/-- The header: salt, record size, length of the key and the key. -/
def header (salt : Vector UInt8 16) (asPublic : List UInt8) : List UInt8 :=
  salt.toList ++ Bytes.toBe 4 RECORD_SIZE ++ [if asPublic.length < 256 then UInt8.ofNat
    asPublic.length else 0] ++ asPublic

/-- Parse a header back into its fields. -/
def parseHeader (bytes : List UInt8) : Option (List UInt8 × ℕ × List UInt8) :=
  if bytes.length < 21 then none
  else
    let salt := bytes.take 16
    let recordSize := Bytes.ofBe ((bytes.drop 16).take 4)
    let idlen := (bytes.getD 20 0).toNat
    if 21 + idlen ≤ bytes.length then some (salt, recordSize, (bytes.drop 21).take idlen) else none

/-- The info of the first derivation: the subscriber's key first, the sender's second. -/
def webPushInfo (uaPublic asPublic : List UInt8) : List UInt8 := ascii "WebPush: info\x00" ++ uaPublic ++ asPublic

/-- The info the content key is expanded with. -/
def cekInfo : List UInt8 := ascii "Content-Encoding: aes128gcm\x00"

/-- The info the nonce is expanded with. -/
def nonceInfo : List UInt8 := ascii "Content-Encoding: nonce\x00"

/-- `Option::ok_or`, and `map_err` of a failure that says no more. -/
def okOr {α : Type} (error : CryptoError) : Option α → Except CryptoError α
  | some a => .ok a
  | none => .error error

/-- Encrypt one Web Push payload to one subscriber. -/
def encrypt (P : Primitives Point Scalar) (keys : SubscriberKeys) (plaintext : List UInt8) (salt : Vector UInt8 16)
    (ephemeral : Vector UInt8 32) : Except CryptoError EncryptedBody := do
  let decoded ← okOr .badPublicKey (Base64Url.decode keys.p256dh)
  if decoded.length ≠ 65 then .error .badPublicKey else
  let publicKey ← okOr .badPublicKey (P.parsePoint decoded)
  let authBytes ← okOr (.badAuthSecret 0) (Base64Url.decode keys.auth)
  if authBytes.length ≠ 16 then .error (.badAuthSecret authBytes.length) else
  let sender ← okOr .noRandomness (P.parseScalar ephemeral.toList)
  let shared := P.diffieHellman sender publicKey
  let uaPublic := P.encodePoint publicKey
  let asPublic := P.encodePoint (P.publicKey sender)
  let ikm ← okOr .encrypt (P.hkdf authBytes shared (webPushInfo uaPublic asPublic) 32)
  let cek ← okOr .encrypt (P.hkdf salt.toList ikm.toList cekInfo 16)
  let nonce ← okOr .encrypt (P.hkdf salt.toList ikm.toList nonceInfo 12)
  let header := header salt asPublic
  let ciphertext ← okOr .encrypt (P.gcmEncrypt cek nonce header plaintext)
  .ok { body := header ++ ciphertext }

/-! ### The receiver -/

/-- A subscription, as the device keeps it. -/
structure Subscription (Scalar : Type) where
  secret : Scalar
  auth : Vector UInt8 16

/-- What the device has told the platform. -/
def Subscription.keys (P : Primitives Point Scalar) (device : Subscription Scalar) : SubscriberKeys where
  p256dh := Base64Url.encode (P.encodePoint (P.publicKey device.secret))
  auth := Base64Url.encode device.auth.toList

/-- The content key and the nonce of a body, for the key of its sender. -/
def Subscription.deviceKeys (P : Primitives Point Scalar) (device : Subscription Scalar) (salt keyid : List UInt8) :
    Option (Vector UInt8 16 × Vector UInt8 12) := do
  let sender ← P.parsePoint keyid
  let info := webPushInfo (P.encodePoint (P.publicKey device.secret)) keyid
  let ikm ← P.hkdf device.auth.toList (P.diffieHellman device.secret sender) info 32
  let cek ← P.hkdf salt ikm.toList cekInfo 16
  let nonce ← P.hkdf salt ikm.toList nonceInfo 12
  some (cek, nonce)

/-- The nonce of a record: the number of the record is combined with it. -/
def recordNonce (nonce : Vector UInt8 12) (seq : ℕ) : Vector UInt8 12 :=
  Vector.ofFn fun i => nonce[i] ^^^ UInt8.ofNat (seq / 256 ^ (11 - i.val))

/-- The delimiter of the last record, -/
def lastDelimiter : UInt8 := 2

/-- and of the others. -/
def delimiter : UInt8 := 1

/-- Strip the padding of a record: zeros, and the delimiter before them. -/
def unpad (mark : UInt8) (record : List UInt8) : Option (List UInt8) :=
  match (record.reverse.dropWhile (· = 0)) with
  | [] => none
  | byte :: rest => if byte = mark then some rest.reverse else none

/-- Decrypt the records of a body, the next of them numbered `seq`. Each but the last is as long as the header says. -/
def openRecords (P : Primitives Point Scalar) (cek : Vector UInt8 16) (nonce : Vector UInt8 12) (recordSize : ℕ)
    (hsize : 18 ≤ recordSize) (seq : ℕ) (records : List UInt8) : Option (List UInt8) :=
  if records.length ≤ recordSize then P.gcmDecrypt cek (recordNonce nonce seq) [] records >>= unpad lastDelimiter
  else do
    let first ← P.gcmDecrypt cek (recordNonce nonce seq) [] (records.take recordSize) >>= unpad delimiter
    let others ← openRecords P cek nonce recordSize hsize (seq + 1) (records.drop recordSize)
    some (first ++ others)
termination_by records.length

/-- The receiver of RFC 8291 and RFC 8188. A record size below 18 is invalid. -/
def Subscription.receive (P : Primitives Point Scalar) (device : Subscription Scalar) (body : List UInt8) :
    Option (List UInt8) := do
  let (salt, recordSize, keyid) ← parseHeader body
  if hsize : 18 ≤ recordSize then
    let (cek, nonce) ← device.deviceKeys P salt keyid
    openRecords P cek nonce recordSize hsize 0 (body.drop (21 + keyid.length))
  else none

/-- A reader that passes the header as associated data, and takes the plaintext as it is. -/
def Subscription.readWithHeader (P : Primitives Point Scalar) (device : Subscription Scalar) (body : List UInt8) :
    Option (List UInt8) := do
  let (salt, _, keyid) ← parseHeader body
  let (cek, nonce) ← device.deviceKeys P salt keyid
  P.gcmDecrypt cek nonce (body.take (21 + keyid.length)) (body.drop (21 + keyid.length))

/-! ### The header -/

section Header

variable {salt : Vector UInt8 16} {asPublic rest : List UInt8}

@[simp] theorem length_header : (header salt asPublic).length = 21 + asPublic.length := by
  simp [header]
  omega

theorem take_header : (header salt asPublic ++ rest).take (21 + asPublic.length) = header salt asPublic := by
  rw [← (length_header : (header salt asPublic).length = _), List.take_left]

theorem drop_header : (header salt asPublic ++ rest).drop (21 + asPublic.length) = rest := by
  rw [← (length_header : (header salt asPublic).length = _), List.drop_left]

theorem header_append (salt : Vector UInt8 16) (rest : List UInt8) (h : asPublic.length < 256) : ∃ fixed :
    List UInt8, fixed.length = 20 ∧ fixed.take 16 = salt.toList ∧
    (fixed.drop 16).take 4 = Bytes.toBe 4 RECORD_SIZE ∧
    header salt asPublic ++ rest = fixed ++ UInt8.ofNat asPublic.length :: (asPublic ++ rest) := by
  refine ⟨salt.toList ++ Bytes.toBe 4 RECORD_SIZE, ?_, ?_, ?_, ?_⟩
  · simp
  · simp
  · simp [List.take_of_length_le]
  · simp [header, h]

/-- **The header is read back.** -/
theorem parseHeader_header (salt : Vector UInt8 16) (rest : List UInt8) (h : asPublic.length < 256) :
    parseHeader (header salt asPublic ++ rest) = some (salt.toList, RECORD_SIZE, asPublic) := by
  obtain ⟨fixed, hfixed, hsalt, hsize, heq⟩ := header_append salt rest h
  have hidlen : (UInt8.ofNat asPublic.length).toNat = asPublic.length := by
    rw [UInt8.toNat_ofNat']
    exact Nat.mod_eq_of_lt h
  have hlong : ¬ (fixed ++ UInt8.ofNat asPublic.length :: (asPublic ++ rest)).length < 21 := by simp; omega
  have hat : (fixed ++ UInt8.ofNat asPublic.length :: (asPublic ++ rest)).getD 20 0 = UInt8.ofNat asPublic.length := by
    simp [← hfixed]
  have hkey : ((fixed ++ UInt8.ofNat asPublic.length :: (asPublic ++ rest)).drop 21).take
    asPublic.length = asPublic := by
    rw [List.drop_append, List.drop_of_length_le (by omega), hfixed]
    simp
  rw [heq, parseHeader, if_neg hlong]
  simp only [hat, hidlen, hkey]
  rw [if_pos (by simp; omega), List.take_append_of_le_length (by omega), hsalt,
    List.drop_append_of_le_length (by omega),
    List.take_append_of_le_length (by simp; omega), hsize, Bytes.ofBe_toBe (by decide)]

end Header

/-! ### What is encrypted -/

section Encrypt

variable {keys : SubscriberKeys} {plaintext : List UInt8} {salt : Vector UInt8 16} {ephemeral : Vector UInt8 32}
  {body : EncryptedBody} {device : Subscription Scalar}

theorem okOr_eq_ok {α : Type} {error : CryptoError} {o : Option α} {a : α} : okOr error o = .ok a ↔ o = some a := by
  cases o <;> simp [okOr]

/-- **The keys agree**: a body is its header and what the device's own key and nonce encrypt, with the header as
associated data. -/
theorem encrypt_eq_ok (hP : P.Sound) : encrypt P (device.keys P) plaintext salt ephemeral = .ok body ↔
    ∃ sender cek nonce ciphertext, P.parseScalar ephemeral.toList = some sender ∧
      device.deviceKeys P salt.toList (P.encodePoint (P.publicKey sender)) = some (cek, nonce) ∧
      P.gcmEncrypt cek nonce (header salt (P.encodePoint (P.publicKey sender))) plaintext = some ciphertext ∧
      body = ⟨header salt (P.encodePoint (P.publicKey sender)) ++ ciphertext⟩ := by
  have hpublic : okOr .badPublicKey (Base64Url.decode (device.keys P).p256dh) = .ok
    (P.encodePoint (P.publicKey device.secret)) :=
    okOr_eq_ok.mpr (Base64Url.decode_encode _)
  have hauth : okOr (.badAuthSecret 0) (Base64Url.decode (device.keys P).auth) = .ok device.auth.toList :=
    okOr_eq_ok.mpr (Base64Url.decode_encode _)
  have hlength : ¬ (P.encodePoint (P.publicKey device.secret)).length ≠ 65 := by simp [hP.length_encode]
  have hauthLength : ¬ device.auth.toList.length ≠ 16 := by simp
  simp only [encrypt, Subscription.deviceKeys, hpublic, hauth, okOr_eq_ok, Fallible.bind_eq_ok, Except.ok.injEq,
    exists_eq_left', if_neg hlength, if_neg hauthLength, hP.parse_encode, Option.some.injEq, Option.bind_eq_bind,
    Option.bind_some,
    Option.bind_eq_some_iff, Prod.mk.injEq, ← hP.agree _ device.secret]
  constructor
  · rintro ⟨sender, hsender, ikm, hikm, cek, hcek, nonce, hnonce, ciphertext, hciphertext, rfl⟩
    exact ⟨sender, cek, nonce, ciphertext, hsender, ⟨ikm, hikm, cek, hcek, nonce, hnonce, rfl, rfl⟩, hciphertext, rfl⟩
  · rintro ⟨sender, cek, nonce, ciphertext, hsender, ⟨ikm, hikm, _, hcek, _, hnonce, rfl, rfl⟩, hciphertext, rfl⟩
    exact ⟨sender, hsender, ikm, hikm, _, hcek, _, hnonce, ciphertext, hciphertext, rfl⟩

/-- **A reader that knows what the module does** reads every body: it passes the header as associated data. -/
theorem readWithHeader_encrypt (hP : P.Sound) (h : encrypt P (device.keys P) plaintext salt ephemeral = .ok body) :
    device.readWithHeader P body.body = some plaintext := by
  obtain ⟨sender, cek, nonce, ciphertext, -, hkeys, hciphertext, rfl⟩ := (encrypt_eq_ok hP).mp h
  have hlength := hP.length_encode (P.publicKey sender)
  have hparse := parseHeader_header salt ciphertext (show (P.encodePoint (P.publicKey sender)).length < 256 by omega)
  simp only [Subscription.readWithHeader, hparse, Option.bind_eq_bind, Option.bind_some, hkeys,
    take_header, drop_header]
  exact hP.decrypt_encrypt _ _ _ _ _ hciphertext

end Encrypt

/-! ### What the receiver reads -/

section Receive

variable {record message plaintext : List UInt8} {mark : UInt8} {cek : Vector UInt8 16} {nonce : Vector UInt8 12}
  {recordSize seq : ℕ} {hsize : 18 ≤ recordSize} {device : Subscription Scalar} {salt : Vector UInt8 16}
  {ephemeral : Vector UInt8 32} {body : EncryptedBody}

theorem length_unpad (h : unpad mark record = some message) : message.length + 1 ≤ record.length := by
  rw [unpad] at h
  split at h
  · cases h
  · rename_i byte rest hrest
    split_ifs at h
    cases h
    have hle := (List.dropWhile_suffix (· = 0) (l := record.reverse)).length_le
    rw [hrest, List.length_cons, List.length_reverse] at hle
    rw [List.length_reverse]
    exact hle

variable (mark) in
theorem length_openRecord (hP : P.Sound) {sealed : List UInt8}
    (h : (P.gcmDecrypt cek nonce [] sealed >>= unpad mark) = some message) : message.length + 17 ≤ sealed.length := by
  obtain ⟨padded, hpadded, hmessage⟩ := Option.bind_eq_some_iff.mp h
  have hlength := hP.length_decrypt _ _ _ _ _ hpadded
  have hshorter := length_unpad hmessage
  omega

theorem length_openRecords (hP : P.Sound) {records : List UInt8}
    (h : openRecords P cek nonce recordSize hsize seq records = some message) :
    message.length + 17 ≤ records.length := by
  induction seq, records using openRecords.induct recordSize hsize generalizing message with
  | case1 seq records hlast =>
    rw [openRecords, if_pos hlast] at h
    exact length_openRecord _ hP h
  | case2 seq records hmore ih =>
    rw [openRecords, if_neg hmore] at h
    simp only [Option.bind_eq_bind, Option.bind_eq_some_iff, Option.some.injEq] at h
    obtain ⟨first, hfirst, others, hothers, rfl⟩ := h
    have hhead := length_openRecord delimiter hP (Option.bind_eq_some_iff.mpr hfirst)
    have htail := ih hothers
    rw [List.length_take] at hhead
    rw [List.length_drop] at htail
    rw [List.length_append]
    omega

theorem recordNonce_zero : recordNonce nonce 0 = nonce := by
  ext i hi
  simp [recordNonce]

/-- The receiver does not read the plaintext: the ciphertext leaves no room for a delimiter. -/
theorem receive_encrypt_ne (hP : P.Sound) (h : encrypt P (device.keys P) plaintext salt ephemeral = .ok body) :
    device.receive P body.body ≠ some plaintext := by
  intro hreceive
  obtain ⟨sender, cek, nonce, ciphertext, -, hkeys, hciphertext, rfl⟩ := (encrypt_eq_ok hP).mp h
  have hkey := hP.length_encode (P.publicKey sender)
  have hparse := parseHeader_header salt ciphertext (show (P.encodePoint (P.publicKey sender)).length < 256 by omega)
  simp only [Subscription.receive, hparse, Option.bind_eq_bind, Option.bind_some, drop_header, hkeys] at hreceive
  split_ifs at hreceive
  have hshort := length_openRecords hP hreceive
  have hexact := hP.length_decrypt _ _ _ _ _ (hP.decrypt_encrypt _ _ _ _ _ hciphertext)
  omega

/-- **No body arrives**: its header is read as it was written, but no receiver of RFC 8291 reads
the plaintext from it. -/
theorem encrypt_never_received (hP : P.Sound) (h : encrypt P (device.keys P) plaintext salt ephemeral = .ok body) :
    (∃ sender, P.parseScalar ephemeral.toList = some sender ∧
      parseHeader body.body = some (salt.toList, RECORD_SIZE, P.encodePoint (P.publicKey sender))) ∧
    device.receive P body.body ≠ some plaintext := by
  obtain ⟨sender, -, -, ciphertext, hsender, -, -, rfl⟩ := (encrypt_eq_ok hP).mp h
  have hkey := hP.length_encode (P.publicKey sender)
  exact ⟨⟨sender, hsender, parseHeader_header _ _ (by omega)⟩, receive_encrypt_ne hP h⟩

end Receive

/-! ### A body that does not arrive -/

/-- The sum of some bytes. -/
def total (bytes : List UInt8) : UInt8 := bytes.foldl (· + ·) 0

/-- Primitives over a group of 256 elements. The tag depends on the key, the nonce, the associated data and the text. -/
def examplePrimitives : Primitives UInt8 UInt8 where
  parsePoint raw := if raw.length = 65 then raw[1]? else none
  encodePoint p := 4 :: p :: List.replicate 63 0
  parseScalar raw := if raw.length = 32 then raw.head? else none
  publicKey a := a
  diffieHellman a p := [a + p]
  hkdf salt key info n := some (Vector.replicate n (total salt + total key + 3 * total info))
  gcmEncrypt key nonce aad message :=
    some (message ++ List.replicate 16 (total key.toList + total nonce.toList + total aad + total message))
  gcmDecrypt key nonce aad sealed :=
    let message := sealed.take (sealed.length - 16)
    if sealed = message ++ List.replicate 16 (total key.toList + total nonce.toList + total aad + total message) then
      some message
    else none

theorem examplePrimitives_sound : examplePrimitives.Sound where
  parse_encode p := by simp [examplePrimitives]
  length_encode p := by simp [examplePrimitives]
  agree a b := congrArg (fun sum => [sum]) (UInt8.add_comm a b)
  decrypt_encrypt key nonce aad message sealed h := by
    cases h
    simp [examplePrimitives]
  length_decrypt key nonce aad sealed message h := by
    simp only [examplePrimitives] at h
    split_ifs at h with htag
    cases h
    have hlength := congrArg List.length htag
    rw [List.length_append, List.length_replicate] at hlength
    exact hlength

/-- A device whose private key is 7. -/
def exampleDevice : Subscription UInt8 := { secret := 7, auth := Vector.replicate 16 9 }

/-- A salt, -/
def exampleSalt : Vector UInt8 16 := Vector.replicate 16 5

/-- and an ephemeral key. -/
def exampleKey : Vector UInt8 32 := Vector.replicate 32 11

/-- Their body for a message of five bytes. -/
def helloBody : EncryptedBody where
  body := header exampleSalt (examplePrimitives.encodePoint 11) ++ (ascii "hello" ++ List.replicate 16 52)

theorem encrypt_hello :
    encrypt examplePrimitives (exampleDevice.keys examplePrimitives) (ascii "hello") exampleSalt exampleKey
      = .ok helloBody := by
  refine (encrypt_eq_ok examplePrimitives_sound).mpr ⟨11, Vector.replicate 16 140, Vector.replicate 12 164,
    _, rfl, ?_, rfl, ?_⟩
  · decide +kernel
  · decide +kernel

/-- **A message of five bytes** is encrypted, and the device does not read it. -/
theorem hello_lost : examplePrimitives.Sound ∧
    encrypt examplePrimitives (exampleDevice.keys examplePrimitives) (ascii "hello") exampleSalt
      exampleKey = .ok helloBody ∧
    exampleDevice.receive examplePrimitives helloBody.body ≠ some (ascii "hello") :=
  ⟨examplePrimitives_sound, encrypt_hello, receive_encrypt_ne examplePrimitives_sound encrypt_hello⟩

theorem readWithHeader_encrypt_hello :
    exampleDevice.readWithHeader examplePrimitives helloBody.body = some (ascii "hello") :=
  readWithHeader_encrypt examplePrimitives_sound encrypt_hello

theorem encrypt_never_received_hello :
    (∃ sender, examplePrimitives.parseScalar exampleKey.toList = some sender ∧
      parseHeader helloBody.body =
        some (exampleSalt.toList, RECORD_SIZE, examplePrimitives.encodePoint (examplePrimitives.publicKey sender))) ∧
    exampleDevice.receive examplePrimitives helloBody.body ≠ some (ascii "hello") :=
  encrypt_never_received examplePrimitives_sound encrypt_hello

end Omnion.PushCrypto
