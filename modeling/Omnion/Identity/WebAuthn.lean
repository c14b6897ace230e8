import Omnion.Core.Json
import Omnion.Core.Text
import Omnion.Identity.Cbor
import Omnion.Identity.Secrets

/-!
# WebAuthn ceremonies

`crates/identity/src/webauthn/mod.rs` and `cose.rs`: what a browser and an authenticator
answer to a challenge, and how it is checked.

## The model

The two signature schemes, the hash function, base64url and the JSON reader are of other
crates and a parameter, `Platform`, and so is how many calls of the CBOR reader the stack holds.
A check answers or refuses with a message; `Stop.outside` is where a slice would panic, which the
CBOR reader never does, and `Stop.exhausted` where the stack overflows.

## What is proved

* `verifyAssertion_eq_ok` — what holds of an assertion that is accepted: the challenge, the
  origin, the relying party, the signature, and a counter that moved forward, or is none.
-/

namespace Omnion.Identity.WebAuthn

/-- What the ceremonies use of other crates, and of the machine. -/
structure Platform where
  /-- The number of calls of `decode_item` the stack holds. -/
  stack : ℕ
  /-- `sha2`. -/
  hashes : Hashes
  /-- `serde_json::from_str`. -/
  parseJson : String → Option Json
  /-- `URL_SAFE_NO_PAD.encode`. -/
  encodeBase64 : List UInt8 → String
  /-- `URL_SAFE_NO_PAD.decode`. -/
  decodeBase64 : String → Option (List UInt8)
  /-- The coordinates are those of a point of P-256. -/
  p256Key : Vector UInt8 32 → Vector UInt8 32 → Bool
  /-- The bytes are an ECDSA signature in DER. -/
  p256Signature : List UInt8 → Bool
  /-- The signature of a message, with a P-256 key. -/
  p256Verify : Vector UInt8 32 → Vector UInt8 32 → List UInt8 → List UInt8 → Bool
  /-- The bytes are a key of Ed25519. -/
  ed25519Key : Vector UInt8 32 → Bool
  /-- The signature of a message, strictly, with an Ed25519 key. -/
  ed25519Verify : Vector UInt8 32 → List UInt8 → List UInt8 → Bool

/-- `IdentityError::WebAuthn`. -/
def refuse {α : Type} (message : String) : Except (Stop String) α := .error (.refused message)

@[simp] theorem refuse_ne_ok {α : Type} {message : String} {a : α} : refuse message ≠ .ok a := nofun

/-- `map_err`, of a message. -/
def mapErr {α : Type} (f : String → String) : Except (Stop String) α → Except (Stop String) α
  | .error (.refused message) => .error (.refused (f message))
  | result => result

/-- `ok_or_else`. -/
def okOr {α : Type} (message : String) : Option α → Except (Stop String) α
  | some a => .ok a
  | none => refuse message

/-- `<[u8; n]>::try_from`. -/
def toArray (n : ℕ) (raw : List UInt8) : Option (Vector UInt8 n) :=
  if h : raw.length = n then some ⟨raw.toArray, h⟩ else none

def utf8Bytes (text : String) : List UInt8 := text.toByteArray.data.toList

theorem utf8Bytes_append (s t : String) : utf8Bytes (s ++ t) = utf8Bytes s ++ utf8Bytes t := by
  simp [utf8Bytes, String.toByteArray_append]

theorem utf8Bytes_ofList (l : List Char) : utf8Bytes (String.ofList l) = l.flatMap String.utf8EncodeChar := by
  simp [utf8Bytes, List.utf8Encode]

/-! ### Credential keys -/

/-- The public half of a credential. -/
inductive CredentialKey where
  | es256 (x y : Vector UInt8 32)
  | ed25519 (x : Vector UInt8 32)
  deriving DecidableEq

namespace CredentialKey

/-- The COSE algorithm identifier this key signs with. -/
def algorithm : CredentialKey → ℤ
  | .es256 .. => -7
  | .ed25519 _ => -8

/-- The 32 bytes at a label of a COSE key. -/
def coordinate (item : Cbor.Item) (label : ℤ) (what : String) : Except (Stop String) (Vector UInt8 32) := do
  let raw ← okOr s!"the COSE key has no {what} coordinate" ((item.mapGet label).bind Cbor.Item.asBytes)
  okOr s!"the {what} coordinate is not 32 bytes" (toArray 32 raw)

/-- Parse a COSE credential public key. -/
def parse (stack : ℕ) (raw : List UInt8) : Except (Stop String) CredentialKey := do
  let item ← Cbor.decode stack raw
  let kty ← okOr "the COSE key does not name a key type" ((item.mapGet 1).bind Cbor.Item.asInteger)
  let crv ← okOr "the COSE key does not name a curve" ((item.mapGet (-1)).bind Cbor.Item.asInteger)
  let alg := (item.mapGet 3).bind Cbor.Item.asInteger
  if kty = 2 ∧ crv = 1 then
    match alg.filter (· ≠ -7) with
    | some alg => refuse s!"unsupported COSE algorithm {alg} for a P-256 key"
    | none =>
      let x ← coordinate item (-2) "x"
      let y ← coordinate item (-3) "y"
      pure (.es256 x y)
  else if kty = 1 ∧ crv = 6 then
    match alg.filter (· ≠ -8) with
    | some alg => refuse s!"unsupported COSE algorithm {alg} for an Ed25519 key"
    | none =>
      let x ← coordinate item (-2) "public key"
      pure (.ed25519 x)
  else refuse s!"unsupported COSE key: type {kty}, curve {crv} (this server verifies ES256 and EdDSA)"

/-- Verify a signature over a message. -/
def verify (platform : Platform) (message signature : List UInt8) : CredentialKey → Except (Stop String) Unit
  | .es256 x y =>
    if platform.p256Key x y = false then refuse "the stored P-256 key is not a point on the curve"
    else if platform.p256Signature signature = false then refuse "the signature is not DER-encoded ECDSA"
    else if platform.p256Verify x y message signature then .ok ()
    else refuse "the signature does not match"
  | .ed25519 x =>
    if platform.ed25519Key x = false then refuse "the stored Ed25519 key is not usable"
    else if signature.length ≠ 64 then refuse "the signature is not 64 bytes"
    else if platform.ed25519Verify x message signature then .ok ()
    else refuse "the signature does not match"

def Signs (platform : Platform) (message signature : List UInt8) : CredentialKey → Prop
  | .es256 x y => platform.p256Key x y = true ∧ platform.p256Signature signature = true ∧
      platform.p256Verify x y message signature = true
  | .ed25519 x => platform.ed25519Key x = true ∧ signature.length = 64 ∧
      platform.ed25519Verify x message signature = true

theorem verify_eq_ok {platform : Platform} {message signature : List UInt8} {key : CredentialKey} :
    key.verify platform message signature = .ok () ↔ key.Signs platform message signature := by
  cases key with
  | es256 x y =>
    rw [verify, Signs]
    split_ifs <;> simp_all [refuse]
  | ed25519 x =>
    rw [verify, Signs]
    split_ifs <;> simp_all [refuse]

end CredentialKey

/-! ### Origins -/

/-- Whether an origin is served from the machine the browser runs on. -/
def isLoopbackOrigin (origin : List Char) : Bool :=
  match Text.splitOnce "://".toList origin with
  | none => false
  | some (scheme, rest) =>
    if scheme ≠ "http".toList && scheme ≠ "https".toList then false
    else
      let host := rest.takeWhile (· ≠ '/')
      -- The port goes; an IPv6 literal keeps its brackets.
      let host := if host.contains ':' && host.getLast? ≠ some ']' then (host.rdropWhile (· ≠ ':')).dropLast else host
      host = "localhost".toList || host = "127.0.0.1".toList || host = "[::1]".toList || host = "::1".toList

/-- `trim().trim_end_matches('/')`. -/
def trimOrigin (origin : String) : String :=
  String.ofList ((Text.trim origin).toList.rdropWhile (· = '/'))

/-- Which origins a ceremony is allowed to come from. -/
structure OriginPolicy where
  allowed : List String
  /-- Whether a loopback origin is accepted from any port. -/
  allowLoopback : Bool

namespace OriginPolicy

/-- A policy from its two halves. -/
def new (allowed : List String) (allowLoopback : Bool) : OriginPolicy where
  allowed := (allowed.map trimOrigin).filter (· ≠ "")
  allowLoopback := allowLoopback

/-- Whether the policy accepts this origin. -/
def accepts (policy : OriginPolicy) (origin : String) : Bool :=
  policy.allowed.contains (trimOrigin origin) ||
    (policy.allowLoopback && isLoopbackOrigin (trimOrigin origin).toList)

end OriginPolicy

/-! ### What a ceremony carries -/

/-- Decode a ceremony wire string. -/
def decodeB64 (platform : Platform) (text : String) : Except (Stop String) (List UInt8) :=
  okOr "the request carried invalid base64url" (platform.decodeBase64 (Text.trim text))

theorem decodeB64_of_trimmed {platform : Platform} {text : String} {l : List Char} {raw : List UInt8}
    (htext : text = String.ofList l)
    (htrim : l.dropWhile Text.isWhitespace = l ∧ l.rdropWhile Text.isWhitespace = l)
    (h : platform.decodeBase64 text = some raw) : decodeB64 platform text = .ok raw := by
  subst htext
  rw [decodeB64, Text.trim_eq_self_iff.mpr htrim, h]
  rfl

/-- The client data a ceremony signs, as this server reads it. -/
structure ClientData where
  /-- `webauthn.create` or `webauthn.get`. -/
  ceremony : String
  challenge : String
  /-- The origin the ceremony ran on. -/
  origin : String
  /-- Whether the ceremony ran in a cross-origin frame. -/
  crossOrigin : Bool

/-- A text field of the client data. -/
def clientText (value : Json) (field : String) : Except (Stop String) String :=
  okOr s!"the client data has no {field}" ((value.get field).bind Json.asStr)

/-- Parse the client data JSON. -/
def parseClientData (platform : Platform) (json : String) : Except (Stop String) ClientData := do
  let value ← okOr "the client data is not JSON" (platform.parseJson json)
  let ceremony ← clientText value "type"
  let challenge ← clientText value "challenge"
  let origin ← clientText value "origin"
  pure { ceremony, challenge, origin, crossOrigin := ((value.get "crossOrigin").bind Json.asBool).getD false }

/-- The credential an authenticator attests to. -/
structure AttestedCredential where
  credentialId : String
  /-- The COSE public key, as stored. -/
  publicKey : String
  key : CredentialKey
  deriving DecidableEq

/-- The authenticator data a ceremony carries. -/
structure AuthenticatorData where
  /-- SHA-256 of the relying party id. -/
  rpIdHash : List UInt8
  flags : UInt8
  signCount : UInt32
  /-- The attested credential (registration only). -/
  credential : Option AttestedCredential
  deriving DecidableEq

namespace AuthenticatorData

/-- Whether the user-presence flag is set. -/
def userPresent (data : AuthenticatorData) : Bool := data.flags &&& 0x01 ≠ 0

/-- Whether the user-verification flag is set. -/
def userVerified (data : AuthenticatorData) : Bool := data.flags &&& 0x04 ≠ 0

end AuthenticatorData

/-- The attested credential: an aaguid of 16 bytes, the length of the credential id in two, the
id and the COSE key. -/
def parseCredential (platform : Platform) (rest : List UInt8) : Except (Stop String) AttestedCredential :=
  if rest.length < 18 then refuse "the attested credential data is too short"
  else
    let idLength := Bytes.ofBe ((rest.drop 16).take 2)
    let idEnd := 18 + idLength
    if rest.length < idEnd then refuse "the credential id is shorter than its length says"
    else do
      let credentialId := (rest.drop 18).take idLength
      let keyBytes := rest.drop idEnd
      let (_, keyLength) ← mapErr (fun error => s!"the COSE key is not readable: {error}")
        (Cbor.decodePrefix platform.stack keyBytes)
      let keyBytes := keyBytes.take keyLength
      let key ← CredentialKey.parse platform.stack keyBytes
      pure { credentialId := platform.encodeBase64 credentialId, publicKey := platform.encodeBase64 keyBytes, key }

def parseAuthenticatorData (platform : Platform) (raw : List UInt8) : Except (Stop String) AuthenticatorData :=
  if raw.length < 37 then refuse "the authenticator data is too short"
  else do
    let flags := raw.getD 32 0
    let credential ← if flags &&& 0x40 ≠ 0 then some <$> parseCredential platform (raw.drop 37) else pure none
    pure { rpIdHash := raw.take 32, flags, signCount := UInt32.ofNat (Bytes.ofBe ((raw.drop 33).take 4)), credential }

/-- The shared client-data checks: ceremony, challenge, origin. -/
def checkClientData (client : ClientData) (ceremony expectedChallenge : String) (origins : OriginPolicy) :
    Except (Stop String) Unit :=
  if client.ceremony ≠ ceremony then refuse s!"this is a {client.ceremony} ceremony, not {ceremony}"
  else if client.challenge ≠ expectedChallenge then
    refuse "the ceremony answered a challenge this server did not issue"
  else if client.crossOrigin then refuse "a cross-origin ceremony is not accepted"
  else if origins.accepts client.origin = false then
    refuse s!"the ceremony ran on {client.origin} — that origin is not accepted here"
  else .ok ()

/-- The relying party id hash must be the one for this installation. -/
def checkRpIdHash (platform : Platform) (hash : List UInt8) (rpId : String) : Except (Stop String) Unit :=
  if hash ≠ (platform.hashes.sha256 (utf8Bytes rpId)).bytes then
    refuse s!"this credential belongs to another relying party than {rpId}"
  else .ok ()

/-- `authenticatorData || SHA-256(clientDataJSON)`. -/
def signedMessage (platform : Platform) (authData : List UInt8) (clientDataJson : String) : List UInt8 :=
  authData ++ (platform.hashes.sha256 (utf8Bytes clientDataJson)).bytes

/-! ### The ceremonies -/

/-- What a verified registration hands back. -/
structure Registration where
  credentialId : String
  publicKey : String
  /-- The algorithm, as the panel names it. -/
  algorithm : String
  /-- The counter the authenticator reported. -/
  signCount : UInt32

/-- What a verified assertion hands back. -/
structure Assertion where
  /-- The counter the authenticator reported. -/
  signCount : UInt32
  /-- Whether the authenticator reported a verified user. -/
  userVerified : Bool

/-- What a browser posts to sign in. -/
structure AssertionRequest where
  clientDataJson : String
  authenticatorDataB64 : String
  signatureB64 : String
  /-- The challenge this server issued. -/
  expectedChallenge : String

/-- `u32::try_from(..).unwrap_or(0)`. -/
def storedCount (storedSignCount : ℤ) : UInt32 :=
  if 0 ≤ storedSignCount ∧ storedSignCount < 0x100000000 then UInt32.ofNat storedSignCount.toNat else 0

/-- The counter moves forward, or there is none. -/
def MovesForward (stored reported : UInt32) : Prop := reported = 0 ∧ stored = 0 ∨ stored < reported

instance (stored reported : UInt32) : Decidable (MovesForward stored reported) :=
  inferInstanceAs (Decidable (_ ∨ _))

def checkSignCount (stored reported : UInt32) : Except (Stop String) Unit :=
  if reported = 0 ∧ stored = 0 then .ok ()
  else if reported ≤ stored then
    refuse "the signature counter did not move forward — the assertion may be a replay"
  else .ok ()

/-- Verify an assertion (the sign-in ceremony). -/
def verifyAssertion (platform : Platform) (request : AssertionRequest) (rpId : String) (origins : OriginPolicy)
    (storedPublicKey : String) (storedSignCount : ℤ) : Except (Stop String) Assertion := do
  let client ← parseClientData platform request.clientDataJson
  checkClientData client "webauthn.get" request.expectedChallenge origins
  let authenticatorData ← decodeB64 platform request.authenticatorDataB64
  let parsed ← parseAuthenticatorData platform authenticatorData
  if parsed.userPresent = false then refuse "the authenticator did not report a user present"
  checkRpIdHash platform parsed.rpIdHash rpId
  let signature ← decodeB64 platform request.signatureB64
  let keyBytes ← decodeB64 platform storedPublicKey
  let key ← CredentialKey.parse platform.stack keyBytes
  mapErr (fun error => s!"the assertion signature was refused: {error}")
    (key.verify platform (signedMessage platform authenticatorData request.clientDataJson) signature)
  checkSignCount (storedCount storedSignCount) parsed.signCount
  pure { signCount := parsed.signCount, userVerified := parsed.userVerified }

/-! ### What is accepted -/

section

variable {α : Type} {a : α} {message : String} {x : Except (Stop String) α}

@[simp] theorem okOr_eq_ok {o : Option α} : okOr message o = .ok a ↔ o = some a := by
  cases o <;> simp [okOr]

@[simp] theorem mapErr_eq_ok {f : String → String} : mapErr f x = .ok a ↔ x = .ok a := by
  cases x with
  | error stop => cases stop <;> simp [mapErr]
  | ok a => rfl

end

structure ClientData.Answers (client : ClientData) (ceremony expectedChallenge : String) (origins : OriginPolicy) :
    Prop where
  ceremony : client.ceremony = ceremony
  /-- The challenge this server issued. -/
  challenge : client.challenge = expectedChallenge
  crossOrigin : client.crossOrigin = false
  /-- On an origin this installation serves. -/
  origin : origins.accepts client.origin = true

theorem checkClientData_eq_ok {client : ClientData} {ceremony expectedChallenge : String} {origins : OriginPolicy} :
    checkClientData client ceremony expectedChallenge origins = .ok () ↔
      client.Answers ceremony expectedChallenge origins := by
  rw [checkClientData]
  split_ifs with hceremony hchallenge hcross horigin
  · exact iff_of_false refuse_ne_ok fun h => hceremony h.ceremony
  · exact iff_of_false refuse_ne_ok fun h => hchallenge h.challenge
  · exact iff_of_false refuse_ne_ok fun h => by simp [h.crossOrigin] at hcross
  · exact iff_of_false refuse_ne_ok fun h => by simp [h.origin] at horigin
  · exact iff_of_true rfl ⟨not_not.mp hceremony, not_not.mp hchallenge, by simpa using hcross, by simpa using horigin⟩

theorem checkRpIdHash_eq_ok {platform : Platform} {hash : List UInt8} {rpId : String} :
    checkRpIdHash platform hash rpId = .ok () ↔ hash = (platform.hashes.sha256 (utf8Bytes rpId)).bytes := by
  rw [checkRpIdHash]
  split_ifs with h
  · exact iff_of_false refuse_ne_ok h
  · exact iff_of_true rfl (not_not.mp h)

theorem checkSignCount_eq_ok {stored reported : UInt32} :
    checkSignCount stored reported = .ok () ↔ MovesForward stored reported := by
  rw [checkSignCount]
  split_ifs with hnone hle
  · exact iff_of_true rfl (.inl hnone)
  · exact iff_of_false refuse_ne_ok fun h => UInt32.not_lt.mpr hle (h.resolve_left hnone)
  · exact iff_of_true rfl (.inr (UInt32.not_le.mp hle))

/-- **An assertion that is accepted**: made for this challenge on an origin that is served, by
a user who was there, with the stored key over what was posted, and with a counter that moved
forward. -/
structure Accepted (platform : Platform) (request : AssertionRequest) (rpId : String) (origins : OriginPolicy)
    (storedPublicKey : String) (storedSignCount : ℤ) (assertion : Assertion) : Prop where
  client : ∃ client, parseClientData platform request.clientDataJson = .ok client ∧
    client.Answers "webauthn.get" request.expectedChallenge origins
  /-- The authenticator data, and the signature. -/
  signed : ∃ raw data signature keyBytes key, decodeB64 platform request.authenticatorDataB64 = .ok raw ∧
    parseAuthenticatorData platform raw = .ok data ∧ data.userPresent = true ∧
    data.rpIdHash = (platform.hashes.sha256 (utf8Bytes rpId)).bytes ∧
    decodeB64 platform request.signatureB64 = .ok signature ∧ decodeB64 platform storedPublicKey = .ok keyBytes ∧
    CredentialKey.parse platform.stack keyBytes = .ok key ∧
    key.Signs platform (signedMessage platform raw request.clientDataJson) signature ∧
    assertion = ⟨data.signCount, data.userVerified⟩
  forward : MovesForward (storedCount storedSignCount) assertion.signCount

theorem verifyAssertion_eq_ok {platform : Platform} {request : AssertionRequest} {rpId : String}
    {origins : OriginPolicy} {storedPublicKey : String} {storedSignCount : ℤ} {assertion : Assertion} :
    verifyAssertion platform request rpId origins storedPublicKey storedSignCount = .ok assertion ↔
      Accepted platform request rpId origins storedPublicKey storedSignCount assertion := by
  constructor
  · intro h
    obtain ⟨client, hclient, h⟩ := Fallible.bind_eq_ok.mp h
    obtain ⟨_, hanswers, h⟩ := Fallible.bind_eq_ok.mp h
    obtain ⟨raw, hraw, h⟩ := Fallible.bind_eq_ok.mp h
    obtain ⟨data, hdata, h⟩ := Fallible.bind_eq_ok.mp h
    by_cases hpresent : data.userPresent = false
    · rw [if_pos hpresent] at h
      cases h
    rw [if_neg hpresent] at h
    obtain ⟨_, hrp, h⟩ := Fallible.bind_eq_ok.mp h
    obtain ⟨signature, hsignature, h⟩ := Fallible.bind_eq_ok.mp h
    obtain ⟨keyBytes, hkeyBytes, h⟩ := Fallible.bind_eq_ok.mp h
    obtain ⟨key, hkey, h⟩ := Fallible.bind_eq_ok.mp h
    obtain ⟨_, hverify, h⟩ := Fallible.bind_eq_ok.mp h
    obtain ⟨_, hcount, h⟩ := Fallible.bind_eq_ok.mp h
    cases h
    exact ⟨⟨client, hclient, checkClientData_eq_ok.mp hanswers⟩,
      ⟨raw, data, signature, keyBytes, key, hraw, hdata, by simpa using hpresent, checkRpIdHash_eq_ok.mp hrp,
        hsignature, hkeyBytes, hkey, CredentialKey.verify_eq_ok.mp (mapErr_eq_ok.mp hverify), rfl⟩,
      checkSignCount_eq_ok.mp hcount⟩
  · rintro ⟨⟨client, hclient, hanswers⟩, ⟨raw, data, signature, keyBytes, key, hraw, hdata, hpresent, hrp, hsignature,
      hkeyBytes, hkey, hsigns, rfl⟩, hforward⟩
    refine Fallible.bind_eq_ok.mpr ⟨client, hclient, Fallible.bind_eq_ok.mpr ⟨(), checkClientData_eq_ok.mpr hanswers,
      Fallible.bind_eq_ok.mpr ⟨raw, hraw, Fallible.bind_eq_ok.mpr ⟨data, hdata, ?_⟩⟩⟩⟩
    rw [if_neg (by rw [hpresent]; decide)]
    exact Fallible.bind_eq_ok.mpr ⟨(), checkRpIdHash_eq_ok.mpr hrp, Fallible.bind_eq_ok.mpr ⟨signature, hsignature,
      Fallible.bind_eq_ok.mpr ⟨keyBytes, hkeyBytes, Fallible.bind_eq_ok.mpr ⟨key, hkey, Fallible.bind_eq_ok.mpr ⟨(),
        mapErr_eq_ok.mpr (CredentialKey.verify_eq_ok.mpr hsigns), Fallible.bind_eq_ok.mpr ⟨(),
          checkSignCount_eq_ok.mpr hforward, rfl⟩⟩⟩⟩⟩⟩

end Omnion.Identity.WebAuthn
