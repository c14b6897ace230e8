import Omnion.Core.Base64Url
import Omnion.Core.FlatJson
import Omnion.Core.Text
import Omnion.Library.Fallible
import Omnion.Library.Guarded
import Omnion.Library.Words

/-!
# The identity of a Web Push sender

`crates/core/src/vapid.rs`: the key pair of an installation, and the `Authorization` value that a push service is sent
with each message. Next to it stands what RFC 8292 reads in such a value: a signed token behind `t`, a public key
behind `k`.

## The model

A header value is its bytes. ECDSA on P-256 is an abstract signature scheme, and how a payload is read as JSON is a
parameter.

## What is proved

* `authorization_never` — no value presents a token. What stands behind `t` has two parts, without a signature; the
  signature stands behind `k`, where the public key should be.
* `readObject_claimsText` — the payload of the token is read as an object, as long as nothing in it needs an escape.

## Honest scope

How a subscription's contact is derived, and the private key minted, is left out.
-/

namespace Omnion.Vapid

open Guarded (Trap)

/-- What the crate `p256` does. -/
structure Scheme (Key : Type) where
  /-- `SigningKey::from_slice`. -/
  fromSlice : List UInt8 → Option Key
  /-- `to_encoded_point(false)` of the verifying key. -/
  point : Key → List UInt8
  /-- `sign`, and `to_bytes` of the signature. -/
  sign : Key → List UInt8 → List UInt8
  /-- `verify`, with the public point, a message and a signature. -/
  verify : List UInt8 → List UInt8 → List UInt8 → Bool

/-- The token lifetime, in seconds. -/
def TOKEN_TTL_SECONDS : ℕ := 12 * 60 * 60

/-- `str::as_bytes`. -/
def bytesOf (text : String) : List UInt8 := text.toList.flatMap String.utf8EncodeChar

variable {Key : Type}

/-- The uncompressed encoding of the public point, 65 bytes. -/
def uncompressedPublicPoint (S : Scheme Key) (signing : Key) : Option (List UInt8) :=
  if (S.point signing).length = 65 then some (S.point signing) else none

/-- The installation's key pair, ready to sign. -/
structure VapidKeys (S : Scheme Key) where
  signing : Key
  publicKey : List UInt8
  /-- The public key is that of the signing key. -/
  hpublic : (uncompressedPublicPoint S signing).map Base64Url.encode = some publicKey

def endsHost (c : Char) : Bool := c = '/' || c = '?' || c = '#'

/-- The origin of an endpoint, or none when it has none. -/
def originOf (endpoint : String) : Option String :=
  match Text.splitOnce "://".toList endpoint.toList with
  | none => none
  | some (scheme, afterScheme) =>
    if scheme = [] ∨ ¬ scheme.all Char.isAlpha then none
    else
      let host := afterScheme.takeWhile fun c => !endsHost c
      if host = [] then none else some (String.ofList (scheme ++ ("://".toList ++ host)))

/-- The claims of a token, as text. -/
def claimsText (audience : String) (exp : ℕ) (contact : String) : String :=
  "\x7b\"aud\":\"" ++ audience ++ "\",\"exp\":" ++ toString exp ++ ",\"sub\":\"" ++ contact ++ "\"\x7d"

/-- A full stop. -/
def dot : UInt8 := 0x2e

def comma : UInt8 := 0x2c

/-- The value with a token and a key. -/
def assemble (token key : List UInt8) : List UInt8 := bytesOf "vapid t=" ++ (token ++ (bytesOf ",k=" ++ key))

/-- Sign one request and return the value for the `Authorization` header. -/
def VapidKeys.authorization {S : Scheme Key} (keys : VapidKeys S) (endpoint contact : String) (now : ℕ) :
    Except Trap (Option (List UInt8)) :=
  match originOf endpoint with
  | none => .ok none
  | some audience => do
    let header := Base64Url.encode (bytesOf "\x7b\"typ\":\"JWT\",\"alg\":\"ES256\"\x7d")
    let claims := claimsText audience (← Guarded.add now TOKEN_TTL_SECONDS) contact
    let signingInput := header ++ dot :: Base64Url.encode (bytesOf claims)
    let raw := S.sign keys.signing signingInput
    .ok (some (assemble signingInput (Base64Url.encode raw)))

/-! ### What RFC 8292 reads -/

/-- A blank between parameters. -/
def isBlank (byte : UInt8) : Bool := byte = 0x20 || byte = 0x09

/-- One parameter: a name, an equals sign and a value. -/
def readParameter (part : List UInt8) : List UInt8 × List UInt8 :=
  ((Words.trim isBlank part).takeWhile (· ≠ 0x3d), ((Words.trim isBlank part).dropWhile (· ≠ 0x3d)).drop 1)

/-- The parameters of a value of the scheme `vapid`. -/
def readParameters (value : List UInt8) : Option (List (List UInt8 × List UInt8)) :=
  if bytesOf "vapid " <+: value then
    some (((value.drop (bytesOf "vapid ").length).splitOn comma).map readParameter)
  else none

/-- A compact JWS. -/
structure Jws where
  /-- What is signed: the header and the payload as they were encoded. -/
  signingInput : List UInt8
  header : List UInt8
  payload : List UInt8
  signature : List UInt8

/-- A compact JWS, in three parts. -/
def readJws (token : List UInt8) : Option Jws :=
  match token.splitOn dot with
  | [header, payload, signature] => do
    some ⟨header ++ dot :: payload, ← Base64Url.decode header, ← Base64Url.decode payload, ← Base64Url.decode signature⟩
  | _ => none

/-- What the endpoint's origin is: its scheme and its host. -/
def IsOrigin (endpoint origin : String) : Prop :=
  ∃ scheme host rest, endpoint.toList = scheme ++ ("://".toList ++ (host ++ rest)) ∧
    origin.toList = scheme ++ ("://".toList ++ host) ∧ scheme ≠ [] ∧ (∀ c ∈ scheme, c.isAlpha = true) ∧
    host ≠ [] ∧ (∀ c ∈ host, endsHost c = false) ∧ ∀ c ∈ rest.head?, endsHost c = true

/-- The claims that a token is to have. -/
structure HasClaims (claims : Json) (origin contact : String) (exp : ℕ) : Prop where
  aud : claims.get "aud" = some (.string origin)
  sub : claims.get "sub" = some (.string contact)
  exp : claims.get "exp" = some (.number (.int exp))

/-- A value presents a token that is signed with a key and has the claims asked for. -/
def Presents (S : Scheme Key) (readJson : List UInt8 → Option Json) (signing : Key) (origin contact : String) (exp : ℕ)
    (value : List UInt8) : Prop :=
  ∃ parameters token key jws claims, readParameters value = some parameters ∧
    parameters.lookup (bytesOf "t") = some token ∧ parameters.lookup (bytesOf "k") = some key ∧
    readJws token = some jws ∧ Base64Url.decode key = some (S.point signing) ∧
    S.verify (S.point signing) jws.signingInput jws.signature = true ∧
    readJson jws.payload = some claims ∧ HasClaims claims origin contact exp

/-! ### How a value reads -/

section

variable {S : Scheme Key} {token key : List UInt8} {origin contact endpoint : String} {exp now : ℕ}

/-- A byte that may stand in a parameter: no blank, no comma. -/
def Plain (byte : UInt8) : Prop := isBlank byte = false ∧ byte ≠ comma

theorem plain_of_mem_encode {raw : List UInt8} {byte : UInt8} (h : byte ∈ Base64Url.encode raw) :
    Plain byte ∧ byte ≠ dot := by
  have hall : ∀ byte ∈ Base64Url.alphabet, (isBlank byte = false ∧ byte ≠ comma) ∧ byte ≠ dot :=
    List.forall_iff_forall_mem.mp (by decide)
  exact hall byte (Base64Url.mem_alphabet_of_mem_encode h)

theorem readParameter_append {name text : List UInt8} (hname : ∀ b ∈ name, b ≠ 0x3d ∧ isBlank b = false)
    (htext : ∀ b ∈ text, isBlank b = false) : readParameter (name ++ 0x3d :: text) = (name, text) := by
  have hbare : Words.trim isBlank (name ++ 0x3d :: text) = name ++ 0x3d :: text := by
    refine Words.trim_eq_iff.mpr ⟨[], [], by simp, by simp, by simp, Words.bare_of_forall fun b hb => ?_⟩
    rcases List.mem_append.mp hb with hb | hb
    · exact (hname b hb).2
    · rcases List.mem_cons.mp hb with rfl | hb
      · decide
      · exact htext b hb
  rw [readParameter, hbare, List.takeWhile_append_of_pos, List.dropWhile_append_of_pos]
  · simp
  · exact fun b hb => by simpa using (hname b hb).1
  · exact fun b hb => by simpa using (hname b hb).1

/-- **Both parameters** of a value are read. -/
theorem readParameters_assemble (htoken : ∀ b ∈ token, Plain b) (hkey : ∀ b ∈ key, Plain b) :
    readParameters (assemble token key) = some [(bytesOf "t", token), (bytesOf "k", key)] := by
  have hsplit : (bytesOf "t" ++ 0x3d :: token ++ comma :: (bytesOf "k" ++ 0x3d :: key)).splitOn comma =
      [bytesOf "t" ++ 0x3d :: token, bytesOf "k" ++ 0x3d :: key] := by
    refine Words.splitOn_eq_iff.mpr ⟨by simp, ?_, by simp [List.intercalate_cons_cons]⟩
    intro part hpart hcomma
    simp only [List.mem_cons, List.not_mem_nil, or_false] at hpart
    rcases hpart with rfl | rfl
    · rcases List.mem_append.mp hcomma with hcomma | hcomma
      · exact absurd hcomma (by decide)
      · exact (htoken comma ((List.mem_cons.mp hcomma).resolve_left (by decide))).2 rfl
    · rcases List.mem_append.mp hcomma with hcomma | hcomma
      · exact absurd hcomma (by decide)
      · exact (hkey comma ((List.mem_cons.mp hcomma).resolve_left (by decide))).2 rfl
  have hvalue : assemble token key =
      bytesOf "vapid " ++ (bytesOf "t" ++ 0x3d :: token ++ comma :: (bytesOf "k" ++ 0x3d :: key)) := by
    have htag : bytesOf "vapid t=" = bytesOf "vapid " ++ (bytesOf "t" ++ [0x3d]) := by decide
    have hkeytag : bytesOf ",k=" = comma :: (bytesOf "k" ++ [0x3d]) := by decide
    rw [assemble, htag, hkeytag]
    simp
  rw [readParameters, hvalue, if_pos (List.prefix_append _ _), List.drop_left, hsplit, List.map_cons, List.map_cons,
    readParameter_append (List.forall_iff_forall_mem.mp (by decide)) fun b hb => (htoken b hb).1,
    readParameter_append (List.forall_iff_forall_mem.mp (by decide)) fun b hb => (hkey b hb).1]
  rfl

theorem readJws_two {header payload : List UInt8} (hheader : dot ∉ header) (hpayload : dot ∉ payload) :
    readJws (header ++ dot :: payload) = none := by
  have hsplit : (header ++ dot :: payload).splitOn dot = [header, payload] :=
    Words.splitOn_eq_iff.mpr ⟨by simp, by simp [hheader, hpayload], by simp [List.intercalate_cons_cons]⟩
  rw [readJws, hsplit]

theorem not_presents_assemble {readJson : List UInt8 → Option Json} {signing : Key}
    {header payload signature : List UInt8} :
    ¬ Presents S readJson signing origin contact exp (assemble (Base64Url.encode header ++ dot ::
      Base64Url.encode payload) (Base64Url.encode signature)) := by
  rintro ⟨parameters, token, key, jws, claims, hparameters, ht, -, hjws, -⟩
  have htoken : ∀ b ∈ Base64Url.encode header ++ dot :: Base64Url.encode payload, Plain b := by
    simp only [List.forall_mem_append, List.forall_mem_cons]
    exact ⟨fun b hb => (plain_of_mem_encode hb).1, by unfold Plain; decide, fun b hb => (plain_of_mem_encode hb).1⟩
  have hkey : ∀ b ∈ Base64Url.encode signature, Plain b := fun b hb => (plain_of_mem_encode hb).1
  have hread := readParameters_assemble htoken hkey
  obtain rfl := Option.some.inj (hread.symm.trans hparameters)
  obtain rfl := Option.some.inj ((List.lookup_cons_self ..).symm.trans ht)
  rw [readJws_two (fun hmem => (plain_of_mem_encode hmem).2 rfl) fun hmem => (plain_of_mem_encode hmem).2 rfl] at hjws
  cases hjws

/-! ### Origin and claims -/

/-- A character that a JSON string has as it is. -/
def Unescaped (c : Char) : Prop := ¬ c.toNat < 0x20 ∧ c ≠ '"' ∧ c ≠ '\\'

/-- The members of the claims, and their texts. -/
def claimsMembers (origin : String) (exp : ℕ) (contact : String) : List FlatJson.Written :=
  [⟨"aud", JsonText.string origin, .string origin⟩, ⟨"exp", JsonText.int exp, .number (.int exp)⟩,
    ⟨"sub", JsonText.string contact, .string contact⟩]

/-- **The claims** are read back when nothing in them needs an escape and the end fits a word. -/
theorem readObject_claimsText (horigin : ∀ c ∈ origin.toList, Unescaped c) (hcontact : ∀ c ∈ contact.toList, Unescaped c)
    (hexp : exp < 2 ^ 64) :
    FlatJson.readObject (claimsText origin exp contact).toList =
      some [("aud", .string origin), ("exp", .number (.int exp)), ("sub", .string contact)] := by
  have hstring : ∀ text : String, (∀ c ∈ text.toList, Unescaped c) →
      JsonText.string text = '"' :: (text.toList ++ ['"']) ∧ ∀ c ∈ text.toList, ¬ c.toNat < 0x20 := by
    intro text htext
    have hescape : text.toList.flatMap JsonText.escape = text.toList := by
      rw [List.flatMap_congr fun c hc => FlatJson.escape_of_plain (htext c hc).1 (htext c hc).2.1 (htext c hc).2.2]
      simp
    exact ⟨by rw [JsonText.string, hescape], fun c hc => (htext c hc).1⟩
  obtain ⟨haud, haudPlain⟩ := hstring origin horigin
  obtain ⟨hsub, hsubPlain⟩ := hstring contact hcontact
  have hsound : ∀ w ∈ claimsMembers origin exp contact, w.Sound := by
    have haudWrites := FlatJson.writes_string haudPlain
    have hsubWrites := FlatJson.writes_string hsubPlain
    rw [String.ofList_toList] at haudWrites hsubWrites
    simp only [claimsMembers, List.forall_mem_cons, FlatJson.Written.Sound]
    refine ⟨⟨?_, haudWrites⟩, ⟨?_, FlatJson.writes_int ⟨by omega, by omega⟩⟩, ⟨?_, hsubWrites⟩, by simp⟩
    all_goals exact List.forall_iff_forall_mem.mp (by decide)
  have htext : (claimsText origin exp contact).toList =
      '{' :: ([','].intercalate ((claimsMembers origin exp contact).map fun w =>
        FlatJson.member w.key w.text) ++ ['}']) := by
    have hnumber : (toString exp).toList = JsonText.int exp := JsonText.toList_toString exp
    simp only [claimsText, String.toList_append, hnumber, claimsMembers, List.map_cons, List.map_nil, FlatJson.member,
      haud, hsub, List.intercalate_cons_cons, List.intercalate_singleton]
    simp [JsonText.string, JsonText.escape]
  rw [htext, FlatJson.readObject_write hsound]
  rfl

theorem readObject_claimsText_ops :
    FlatJson.readObject (claimsText "https://push.example" 1700043200 "mailto:ops@example.com").toList =
      some [("aud", .string "https://push.example"), ("exp", .number (.int 1700043200)),
        ("sub", .string "mailto:ops@example.com")] :=
  readObject_claimsText (List.forall_iff_forall_mem.mp (by unfold Unescaped; decide))
    (List.forall_iff_forall_mem.mp (by unfold Unescaped; decide)) (by decide)

/-! ### What is sent -/

/-- What `authorization` answers has a token of two parts. -/
theorem authorization_eq_some {keys : VapidKeys S} {value : List UInt8}
    (h : keys.authorization endpoint contact now = .ok (some value)) : ∃ header payload signature,
    value = assemble (Base64Url.encode header ++ dot :: Base64Url.encode payload) (Base64Url.encode signature) := by
  rw [VapidKeys.authorization] at h
  split at h
  · cases h
  · obtain ⟨exp, -, h⟩ := Fallible.bind_eq_ok.mp h
    cases h
    exact ⟨_, _, _, rfl⟩

end

/-- **No value presents a token**, whatever the keys, the endpoint, the contact and the instant. -/
theorem authorization_never (S : Scheme Key) (readJson : List UInt8 → Option Json) (keys : VapidKeys S)
    (endpoint contact : String) (now : ℕ) :
    ¬ ∃ value origin, keys.authorization endpoint contact now = .ok (some value) ∧ IsOrigin endpoint origin ∧
      Presents S readJson keys.signing origin contact (now + TOKEN_TTL_SECONDS) value := by
  rintro ⟨value, origin, hvalue, -, hpresents⟩
  obtain ⟨header, payload, signature, rfl⟩ := authorization_eq_some hvalue
  exact not_presents_assemble hpresents

/-- A scheme with one key, whose signatures are all the same. -/
def sampleScheme : Scheme Unit where
  fromSlice bytes := if bytes.length = 32 then some () else none
  point _ := 0x04 :: List.replicate 64 0
  sign _ _ := List.replicate 64 1
  verify point _ signature := point == 0x04 :: List.replicate 64 0 && signature == List.replicate 64 1

/-- Its key pair. -/
def sampleKeys : VapidKeys sampleScheme := ⟨(), Base64Url.encode (0x04 :: List.replicate 64 0), rfl⟩

/-- A JSON object of ASCII characters. -/
def readAscii (bytes : List UInt8) : Option Json :=
  (FlatJson.readObject (bytes.map fun byte => Char.ofNat byte.toNat)).map .object

/-- A push service finds no token in the value that it is sent. -/
theorem no_token_for_fcm : ∃ value,
    sampleKeys.authorization "https://fcm.googleapis.com/fcm/send/abc123" "mailto:ops@example.com" 1700000000 =
      .ok (some value) ∧
    ¬ Presents sampleScheme readAscii () "https://fcm.googleapis.com" "mailto:ops@example.com"
      (1700000000 + TOKEN_TTL_SECONDS) value := by
  have horigin : originOf "https://fcm.googleapis.com/fcm/send/abc123" = some "https://fcm.googleapis.com" := by decide
  rw [VapidKeys.authorization, horigin]
  exact ⟨_, rfl, not_presents_assemble⟩

end Omnion.Vapid
