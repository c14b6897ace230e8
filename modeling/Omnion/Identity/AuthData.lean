import Omnion.Core.Base64Url
import Omnion.Identity.Cose

/-!
# Authenticator data

`parse_authenticator_data` of `crates/identity/src/webauthn/mod.rs`, against the layout of
WebAuthn: each part begins where the one before it ends, and the COSE key says itself how long it
is, so that the extensions after it are not read.

## What is proved

* `parseAuthenticatorData_exact` — when what is accepted is what is laid out so, with the fields
  that are answered, everything else is refused, within the input, and the stored key is read again
  as the one that was answered: where the stack holds the calls for the key, and no key has a label
  twice or an algorithm that is no integer.
* `nested_key` — authenticator data with one array within another for a key.
-/

namespace Omnion.Identity.WebAuthn

open Cbor (sliceLimit Item Encodes Deeper)

variable {platform : Platform} {raw rest : List UInt8} {data : AuthenticatorData} {credential : AttestedCredential}

/-! ### The layout -/

/-- An aaguid, the length of a credential id in two bytes, the id, a COSE key, and extensions. -/
def attested (aaguid id key extensions : List UInt8) : List UInt8 :=
  aaguid ++ (Bytes.toBe 2 id.length ++ (id ++ (key ++ extensions)))

/-- The hash of a relying party id, flags, a counter in four bytes, and what comes after them. -/
def authData (rpIdHash : List UInt8) (flags : UInt8) (signCount : UInt32) (rest : List UInt8) : List UInt8 :=
  rpIdHash ++ (flags :: (Bytes.toBe 4 signCount.toNat ++ rest))

/-- The bytes are an encoded COSE key: those of a map that says the key to every reader. -/
def Spells (bytes : List UInt8) (key : CredentialKey) : Prop :=
  ∃ entries, Encodes bytes [.map entries] ∧ key.Says entries

/-- The bytes begin with the attested credential. -/
def Attests (platform : Platform) (rest : List UInt8) (credential : AttestedCredential) : Prop :=
  ∃ aaguid id key extensions, aaguid.length = 16 ∧ id.length < 2 ^ 16 ∧ rest = attested aaguid id key extensions ∧
    Spells key credential.key ∧
      credential.credentialId = platform.encodeBase64 id ∧ credential.publicKey = platform.encodeBase64 key

/-- The bytes are authenticator data with these fields. -/
structure LaidOut (platform : Platform) (raw : List UInt8) (data : AuthenticatorData) : Prop where
  rpIdHash : data.rpIdHash.length = 32
  /-- The fields come first, and where the flags say so the credential after them. -/
  fields : ∃ rest, raw = authData data.rpIdHash data.flags data.signCount rest ∧
    if data.flags &&& 0x40 ≠ 0 then ∃ credential, data.credential = some credential ∧ Attests platform rest credential
    else data.credential = none

/-- What is asked of the reader, of a blob. -/
structure Exact (platform : Platform) (raw : List UInt8) : Prop where
  laidOut : ∀ data, parseAuthenticatorData platform raw = .ok data ↔ LaidOut platform raw data
  refused : ∀ stop, parseAuthenticatorData platform raw = .error stop → ∃ message, stop = .refused message
  /-- The key that is stored is read again. -/
  stored : ∀ data credential, parseAuthenticatorData platform raw = .ok data → data.credential = some credential →
    ∃ key, platform.decodeBase64 credential.publicKey = some key ∧
      CredentialKey.parse platform.stack key = .ok credential.key

/-- Where a credential has its key, and what comes after it. -/
def KeyAt (rest keys : List UInt8) : Prop :=
  ∃ aaguid id, aaguid.length = 16 ∧ id.length < 2 ^ 16 ∧ rest = aaguid ++ (Bytes.toBe 2 id.length ++ (id ++ keys))

/-- Where authenticator data have the key of a credential. -/
def HasKey (raw keys : List UInt8) : Prop :=
  ∃ rpIdHash flags signCount rest, rpIdHash.length = 32 ∧ flags &&& 0x40 ≠ 0 ∧
    raw = authData rpIdHash flags signCount rest ∧ KeyAt rest keys

/-- The stack holds the calls, and a map that makes up a key has no label twice and an algorithm
that is read. -/
structure Regular (stack : ℕ) (keys : List UInt8) : Prop where
  shallow : ¬ Deeper stack keys
  plain : ∀ word extensions entries key, keys = word ++ extensions → Encodes word [.map entries] →
    CredentialKey.Found (.map entries) key → CredentialKey.Plain entries

/-! ### What is read -/

theorem length_attested (aaguid id key extensions : List UInt8) :
    (attested aaguid id key extensions).length = aaguid.length + 2 + id.length + key.length + extensions.length := by
  simp [attested]
  omega

theorem attested_parts {aaguid id key extensions : List UInt8} (haaguid : aaguid.length = 16) :
    ((attested aaguid id key extensions).drop 16).take 2 = Bytes.toBe 2 id.length ∧
      ((attested aaguid id key extensions).drop 18).take id.length = id ∧
        (attested aaguid id key extensions).drop (18 + id.length) = key ++ extensions := by
  have h16 : (attested aaguid id key extensions).drop 16 = Bytes.toBe 2 id.length ++ (id ++ (key ++ extensions)) :=
    List.drop_left' haaguid
  have h18 : (attested aaguid id key extensions).drop 18 = id ++ (key ++ extensions) := by
    rw [show 18 = 16 + 2 from rfl, ← List.drop_drop, h16]
    exact List.drop_left' (Bytes.length_toBe 2 _)
  refine ⟨?_, ?_, ?_⟩
  · rw [h16]
    exact List.take_left' (Bytes.length_toBe 2 _)
  · rw [h18, List.take_left]
  · rw [← List.drop_drop, h18, List.drop_left]

theorem parse_of_encodes {stack : ℕ} {bytes : List UInt8} {entries : List (Item × Item)} {key : CredentialKey}
    (hlimit : bytes.length < sliceLimit) (hdeep : ¬ Deeper stack bytes) (h : Encodes bytes [.map entries])
    (hfound : CredentialKey.Found (.map entries) key) : CredentialKey.parse stack bytes = .ok key := by
  refine CredentialKey.parse_eq_ok.mpr ⟨_, Cbor.decode_eq_ok.mpr ?_, hfound⟩
  exact (Cbor.decodePrefix_eq_ok hlimit).mpr ⟨hdeep, le_rfl, by rwa [List.take_length]⟩

/-- The first key a map is found to say, where the stack holds it. -/
def Finds (platform : Platform) (rest : List UInt8) (credential : AttestedCredential) : Prop :=
  ∃ aaguid id key extensions entries, aaguid.length = 16 ∧ id.length < 2 ^ 16 ∧
    rest = attested aaguid id key extensions ∧ ¬ Deeper platform.stack (key ++ extensions) ∧
      Encodes key [.map entries] ∧ CredentialKey.Found (.map entries) credential.key ∧
        credential.credentialId = platform.encodeBase64 id ∧ credential.publicKey = platform.encodeBase64 key

theorem parseCredential_of_finds (hlimit : rest.length < sliceLimit) (h : Finds platform rest credential) :
    parseCredential platform rest = .ok credential := by
  obtain ⟨aaguid, id, key, extensions, entries, haaguid, hid, rfl, hdeep, hencodes, hfound, hcredentialId,
    hpublicKey⟩ := h
  have hlength := length_attested aaguid id key extensions
  obtain ⟨hcount, hidPart, hkeyPart⟩ := @attested_parts aaguid id key extensions haaguid
  have hstart := Cbor.decodePrefix_of_encodes extensions (by simp; omega) hencodes hdeep
  have hkey := parse_of_encodes (by omega) (fun h => hdeep (h.append _)) hencodes hfound
  have hlengthPart : Bytes.ofBe (Bytes.toBe 2 id.length) = id.length := Bytes.ofBe_toBe hid
  simp only [parseCredential, hcount, hlengthPart, hidPart, hkeyPart, hstart]
  rw [if_neg (by omega), if_neg (by omega)]
  simp [mapErr, bind, Except.bind, pure, Except.pure, hkey, ← hcredentialId, ← hpublicKey]

theorem take_parts (rest : List UInt8) (count n : ℕ) :
    rest = rest.take 16 ++ ((rest.drop 16).take 2 ++ ((rest.drop 18).take count ++
      ((rest.drop (18 + count)).take n ++ (rest.drop (18 + count)).drop n))) := by
  have hlength : (rest.drop 16).drop 2 = rest.drop 18 := List.drop_drop
  have hid : (rest.drop 18).drop count = rest.drop (18 + count) := List.drop_drop
  rw [List.take_append_drop n, ← hid, List.take_append_drop count, ← hlength, List.take_append_drop 2,
    List.take_append_drop 16]

theorem id_parts (hid : ¬ rest.length < 18 + Bytes.ofBe ((rest.drop 16).take 2)) :
    Bytes.ofBe ((rest.drop 16).take 2) < 2 ^ 16 ∧
      ((rest.drop 18).take (Bytes.ofBe ((rest.drop 16).take 2))).length = Bytes.ofBe ((rest.drop 16).take 2) ∧
        Bytes.toBe 2 (Bytes.ofBe ((rest.drop 16).take 2)) = (rest.drop 16).take 2 := by
  have hcount : ((rest.drop 16).take 2).length = 2 := by simp; omega
  have hbound := hcount ▸ Bytes.ofBe_lt ((rest.drop 16).take 2)
  have hbytes : Bytes.toBe ((rest.drop 16).take 2).length (Bytes.ofBe ((rest.drop 16).take 2))
    = (rest.drop 16).take 2 :=
    Bytes.toBe_ofBe _
  rw [hcount] at hbytes
  exact ⟨by omega, by simp; omega, hbytes⟩

theorem finds_of_parseCredential (hlimit : rest.length < sliceLimit)
    (h : parseCredential platform rest = .ok credential) : Finds platform rest credential := by
  simp only [parseCredential] at h
  split_ifs at h with hshort hid
  · cases h
  · cases h
  obtain ⟨⟨item, n⟩, hstart, h⟩ := Fallible.bind_eq_ok.mp h
  obtain ⟨key, hkey, h⟩ := Fallible.bind_eq_ok.mp h
  cases h
  obtain ⟨hbound, hidLength, hbytes⟩ := id_parts hid
  generalize Bytes.ofBe ((rest.drop 16).take 2) = count at *
  obtain ⟨hdeep, -, -⟩ := (Cbor.decodePrefix_eq_ok (by simp; omega)).mp (mapErr_eq_ok.mp hstart)
  obtain ⟨found, hdecode, hfound⟩ := CredentialKey.parse_eq_ok.mp hkey
  obtain ⟨entries, rfl⟩ := hfound.exists_map
  obtain ⟨-, -, hencodes⟩ := (Cbor.decodePrefix_eq_ok (by simp; omega)).mp (Cbor.decode_eq_ok.mp hdecode)
  rw [List.take_length] at hencodes
  refine ⟨rest.take 16, (rest.drop 18).take count, _, (rest.drop (18 + count)).drop n, entries, by simp; omega,
    by omega, ?_, by rwa [List.take_append_drop], hencodes, hfound, rfl, rfl⟩
  rw [attested, hidLength, hbytes]
  exact take_parts rest count n

theorem parseCredential_eq_ok (hlimit : rest.length < sliceLimit) :
    parseCredential platform rest = .ok credential ↔ Finds platform rest credential :=
  ⟨finds_of_parseCredential hlimit, parseCredential_of_finds hlimit⟩

/-- **What is attested**, where the key is regular. -/
theorem finds_iff_attests (h : ∀ keys, KeyAt rest keys → Regular platform.stack keys) :
    Finds platform rest credential ↔ Attests platform rest credential := by
  constructor
  · rintro ⟨aaguid, id, key, extensions, entries, haaguid, hid, hrest, hdeep, hencodes, hfound, hids⟩
    have hplain := (h (key ++ extensions) ⟨aaguid, id, haaguid, hid, hrest⟩).plain key extensions entries
      credential.key rfl hencodes hfound
    exact ⟨aaguid, id, key, extensions, haaguid, hid, hrest,
      ⟨entries, hencodes, (CredentialKey.says_iff hfound).mpr hplain⟩, hids⟩
  · rintro ⟨aaguid, id, key, extensions, haaguid, hid, hrest, ⟨entries, hencodes, hsaid⟩, hids⟩
    exact ⟨aaguid, id, key, extensions, entries, haaguid, hid, hrest,
      (h (key ++ extensions) ⟨aaguid, id, haaguid, hid, hrest⟩).shallow, hencodes, hsaid.found, hids⟩

theorem KeyAt.unique {keys keys' : List UInt8} (h : KeyAt rest keys) (h' : KeyAt rest keys') : keys = keys' := by
  obtain ⟨aaguid, id, haaguid, hid, rfl⟩ := h
  obtain ⟨aaguid', id', haaguid', hid', hrest⟩ := h'
  obtain ⟨-, hrest⟩ := List.append_inj hrest (haaguid.trans haaguid'.symm)
  obtain ⟨hcount, hrest⟩ := List.append_inj hrest (by simp)
  have hlength : Bytes.ofBe (Bytes.toBe 2 id.length) = id.length := Bytes.ofBe_toBe hid
  have hlength' : Bytes.ofBe (Bytes.toBe 2 id'.length) = id'.length := Bytes.ofBe_toBe hid'
  exact (List.append_inj hrest (by rw [← hlength, hcount, hlength'])).2

/-! ### What is refused -/

/-- It answers, or refuses with a message. -/
def Answers {α : Type} (x : Except (Stop String) α) : Prop := ∀ stop, x = .error stop →
    ∃ message, stop = .refused message

section Answers

variable {α β : Type} {x : Except (Stop String) α} {f : α → Except (Stop String) β} {message : String}

theorem answers_ok (a : α) : Answers (.ok a) := fun _ h => by cases h

theorem answers_refuse : Answers (refuse message : Except (Stop String) α) := fun _ h => by
  cases h
  exact ⟨message, rfl⟩

theorem answers_okOr (o : Option α) : Answers (okOr message o) := by
  cases o with
  | none => exact answers_refuse
  | some a => exact answers_ok a

theorem Answers.bind (hx : Answers x) (hf : ∀ a, x = .ok a → Answers (f a)) : Answers (x >>= f) := by
  cases x with
  | error stop =>
    obtain ⟨message, rfl⟩ := hx stop rfl
    exact answers_refuse
  | ok a => exact hf a rfl

theorem Answers.map {g : α → β} (hx : Answers x) : Answers (g <$> x) := by
  cases x with
  | error stop =>
    obtain ⟨message, rfl⟩ := hx stop rfl
    exact answers_refuse
  | ok a => exact answers_ok (g a)

theorem Answers.mapErr {g : String → String} (hx : Answers x) : Answers (mapErr g x) := by
  cases x with
  | error stop =>
    obtain ⟨message, rfl⟩ := hx stop rfl
    exact answers_refuse
  | ok a => exact answers_ok a

end Answers

theorem answers_decodePrefix {stack : ℕ} (hlimit : raw.length < sliceLimit) (hdeep : ¬ Deeper stack raw) :
    Answers (Cbor.decodePrefix stack raw) := by
  obtain ⟨r, hr⟩ := Cbor.decodePrefix_answers hlimit hdeep
  rw [hr]
  cases r with
  | error message => exact answers_refuse
  | ok a => exact answers_ok a

theorem answers_parse {stack : ℕ} (hlimit : raw.length < sliceLimit) (hdeep : ¬ Deeper stack raw) :
    Answers (CredentialKey.parse stack raw) := by
  have hdecode : Answers (Cbor.decode stack raw) := by
    have hstart := answers_decodePrefix hlimit hdeep
    unfold Cbor.decode
    split
    · rename_i stop h
      obtain ⟨message, rfl⟩ := hstart stop h
      exact answers_refuse
    · split_ifs
      · exact answers_refuse
      · exact answers_ok _
  have hcoordinate : ∀ (item : Cbor.Item) label what, Answers (CredentialKey.coordinate item label what) :=
    fun _ _ _ => (answers_okOr _).bind fun _ _ => answers_okOr _
  refine hdecode.bind fun item _ => (answers_okOr _).bind fun kty _ => (answers_okOr _).bind fun crv _ => ?_
  dsimp only
  split_ifs
  · split
    · exact answers_refuse
    · exact Answers.bind (hcoordinate _ _ _) fun _ _ => Answers.bind (hcoordinate _ _ _) fun _ _ => answers_ok _
  · split
    · exact answers_refuse
    · exact Answers.bind (hcoordinate _ _ _) fun _ _ => answers_ok _
  · exact answers_refuse

theorem answers_parseCredential (hlimit : rest.length < sliceLimit)
    (hdeep : ∀ keys, KeyAt rest keys → ¬ Deeper platform.stack keys) : Answers (parseCredential platform rest) := by
  simp only [parseCredential]
  split_ifs with hshort hid
  · exact answers_refuse
  · exact answers_refuse
  · obtain ⟨hbound, hidLength, hbytes⟩ := id_parts hid
    generalize Bytes.ofBe ((rest.drop 16).take 2) = count at *
    have hkeys := hdeep (rest.drop (18 + count)) ⟨rest.take 16, (rest.drop 18).take count, by simp; omega, by omega, by
      rw [hidLength, hbytes]
      simpa using take_parts rest count 0⟩
    refine (answers_decodePrefix (by simp; omega) hkeys).mapErr.bind fun p _ => ?_
    refine (answers_parse (by simp; omega) fun hcut => hkeys ?_).bind fun _ _ => answers_ok _
    rw [← List.take_append_drop p.2 (rest.drop (18 + count))]
    exact hcut.append _

theorem parseCredential_eq_exhausted {keys : List UInt8} (hlimit : rest.length < sliceLimit) (hkeys : KeyAt rest keys)
    (hdeep : Deeper platform.stack keys) : parseCredential platform rest = .error .exhausted := by
  obtain ⟨aaguid, id, haaguid, hid, rfl⟩ := hkeys
  have hlength := length_attested aaguid id [] keys
  obtain ⟨hcount, hidPart, hkeyPart⟩ := @attested_parts aaguid id [] keys haaguid
  have hstart := (Cbor.decodePrefix_eq_exhausted (by simp [attested] at hlength hlimit; omega)).mpr hdeep
  have hlengthPart : Bytes.ofBe (Bytes.toBe 2 id.length) = id.length := Bytes.ofBe_toBe hid
  simp only [attested, List.nil_append] at hcount hidPart hkeyPart hlength
  simp only [parseCredential, hcount, hlengthPart, hkeyPart, hstart]
  rw [if_neg (by simp at hlength ⊢; omega), if_neg (by simp at hlength ⊢; omega)]
  rfl

/-- The credential, where the flags say there is one. -/
def credentialOf (platform : Platform) (flags : UInt8) (rest : List UInt8) :
    Except (Stop String) (Option AttestedCredential) :=
  if flags &&& 0x40 ≠ 0 then some <$> parseCredential platform rest else pure none

theorem parseAuthenticatorData_eq (hlength : 37 ≤ raw.length) :
    parseAuthenticatorData platform raw = credentialOf platform (raw.getD 32 0) (raw.drop 37) >>= fun credential =>
      .ok { rpIdHash := raw.take 32, flags := raw.getD 32 0,
            signCount := UInt32.ofNat (Bytes.ofBe ((raw.drop 33).take 4)), credential } := by
  simp only [parseAuthenticatorData, credentialOf, if_neg (Nat.not_lt.mpr hlength)]
  split_ifs <;> rfl

theorem authData_parts {rpIdHash : List UInt8} {flags : UInt8} {signCount : UInt32} (hrpIdHash : rpIdHash.length = 32) :
    (authData rpIdHash flags signCount rest).take 32 = rpIdHash ∧
      (authData rpIdHash flags signCount rest).getD 32 0 = flags ∧
        ((authData rpIdHash flags signCount rest).drop 33).take 4 = Bytes.toBe 4 signCount.toNat ∧
          (authData rpIdHash flags signCount rest).drop 37 = rest := by
  have h32 : (authData rpIdHash flags signCount rest).drop 32 = flags :: (Bytes.toBe 4 signCount.toNat ++ rest) :=
    List.drop_left' hrpIdHash
  have h33 : (authData rpIdHash flags signCount rest).drop 33 = Bytes.toBe 4 signCount.toNat ++ rest := by
    rw [show 33 = 32 + 1 from rfl, ← List.drop_drop, h32, List.drop_one, List.tail_cons]
  refine ⟨List.take_left' hrpIdHash, ?_, ?_, ?_⟩
  · rw [authData, List.getD_append_right _ _ _ _ (by omega), hrpIdHash]
    rfl
  · rw [h33]
    exact List.take_left' (Bytes.length_toBe 4 _)
  · rw [show 37 = 33 + 4 from rfl, ← List.drop_drop, h33]
    exact List.drop_left' (Bytes.length_toBe 4 _)

theorem eq_authData (hlength : 37 ≤ raw.length) :
    raw = authData (raw.take 32) (raw.getD 32 0) (UInt32.ofNat (Bytes.ofBe ((raw.drop 33).take 4))) (raw.drop 37) := by
  have hcount : ((raw.drop 33).take 4).length = 4 := by simp; omega
  have hbound := hcount ▸ Bytes.ofBe_lt ((raw.drop 33).take 4)
  have hbytes : Bytes.toBe ((raw.drop 33).take 4).length (Bytes.ofBe ((raw.drop 33).take 4)) = (raw.drop 33).take 4 :=
    Bytes.toBe_ofBe _
  have hcounter : (UInt32.ofNat (Bytes.ofBe ((raw.drop 33).take 4))).toNat = Bytes.ofBe ((raw.drop 33).take 4) := by
    rw [UInt32.toNat_ofNat']
    exact Nat.mod_eq_of_lt hbound
  have hflags : raw.getD 32 0 :: raw.drop 33 = raw.drop 32 := by
    rw [List.getD_eq_getElem _ _ (by omega), ← List.drop_eq_getElem_cons]
  have hrest : (raw.drop 33).drop 4 = raw.drop 37 := List.drop_drop
  rw [hcount] at hbytes
  rw [authData, hcounter, hbytes, ← hrest, List.take_append_drop, hflags, List.take_append_drop]

theorem parseAuthenticatorData_authData (platform : Platform) {rpIdHash : List UInt8} (flags : UInt8)
    (signCount : UInt32) (rest : List UInt8) (hrpIdHash : rpIdHash.length = 32) :
    parseAuthenticatorData platform (authData rpIdHash flags signCount rest) =
      credentialOf platform flags rest >>= fun credential => .ok { rpIdHash, flags, signCount, credential } := by
  obtain ⟨htake, hflags, hcounter, hrest⟩ := @authData_parts rest rpIdHash flags signCount hrpIdHash
  rw [parseAuthenticatorData_eq (by simp [authData]; omega), hflags, hrest, htake, hcounter,
    Bytes.ofBe_toBe signCount.toNat_lt, UInt32.ofNat_toNat]

theorem short_or_authData (raw : List UInt8) : raw.length < 37 ∨ ∃ rpIdHash flags signCount rest,
    rpIdHash.length = 32 ∧ raw = authData rpIdHash flags signCount rest := by
  refine (Nat.lt_or_ge raw.length 37).imp_right fun hlength => ?_
  exact ⟨_, _, _, _, by simp; omega, eq_authData hlength⟩

theorem answers_parseAuthenticatorData (hlimit : raw.length < sliceLimit)
    (hdeep : ∀ keys, HasKey raw keys → ¬ Deeper platform.stack keys) :
    Answers (parseAuthenticatorData platform raw) := by
  rcases short_or_authData raw with hlength | ⟨rpIdHash, flags, signCount, rest, hrpIdHash, rfl⟩
  · rw [parseAuthenticatorData, if_pos hlength]
    exact answers_refuse
  · rw [parseAuthenticatorData_authData _ _ _ _ hrpIdHash]
    refine Answers.bind ?_ fun _ _ => answers_ok _
    unfold credentialOf
    split_ifs with hflags
    · refine (answers_parseCredential (by simp [authData] at hlimit; omega) fun keys hkeys => ?_).map
      exact hdeep keys ⟨rpIdHash, flags, signCount, rest, hrpIdHash, hflags, rfl, hkeys⟩
    · exact answers_ok _

theorem credentialOf_eq_ok {flags : UInt8} {o : Option AttestedCredential} :
    credentialOf platform flags rest = .ok o ↔
      if flags &&& 0x40 ≠ 0 then ∃ credential, o = some credential ∧ parseCredential platform rest = .ok credential
      else o = none := by
  unfold credentialOf
  split_ifs
  · cases parseCredential platform rest with
    | error stop => simp [Functor.map, Except.map]
    | ok credential => simp [Functor.map, Except.map, eq_comm]
  · exact ⟨fun h => (Except.ok.inj h).symm, fun h => h ▸ rfl⟩

theorem authData_inj {rpIdHash rpIdHash' rest' : List UInt8} {flags flags' : UInt8} {signCount signCount' : UInt32}
    (hrpIdHash : rpIdHash.length = 32) (hrpIdHash' : rpIdHash'.length = 32)
    (h : authData rpIdHash flags signCount rest = authData rpIdHash' flags' signCount' rest') :
    rpIdHash = rpIdHash' ∧ flags = flags' ∧ signCount = signCount' ∧ rest = rest' := by
  obtain ⟨rfl, hfields⟩ := List.append_inj h (hrpIdHash.trans hrpIdHash'.symm)
  obtain ⟨rfl, hcounters⟩ := List.cons.inj hfields
  obtain ⟨hcounter, rfl⟩ := List.append_inj hcounters (by simp)
  have hcount : Bytes.ofBe (Bytes.toBe 4 signCount.toNat) = signCount.toNat := Bytes.ofBe_toBe signCount.toNat_lt
  have hcount' : Bytes.ofBe (Bytes.toBe 4 signCount'.toNat) = signCount'.toNat := Bytes.ofBe_toBe signCount'.toNat_lt
  exact ⟨rfl, rfl, UInt32.toNat_inj.mp (by rw [← hcount, hcounter, hcount']), rfl⟩

/-- **What is read**, where the keys are regular. -/
theorem parseAuthenticatorData_eq_ok (hlimit : raw.length < sliceLimit)
    (hregular : ∀ keys, HasKey raw keys → Regular platform.stack keys) :
    parseAuthenticatorData platform raw = .ok data ↔ LaidOut platform raw data := by
  have hattests : ∀ {rpIdHash flags signCount rest credential}, rpIdHash.length = 32 → flags &&& 0x40 ≠ 0 →
      raw = authData rpIdHash flags signCount rest →
      (parseCredential platform rest = .ok credential ↔ Attests platform rest credential) := by
    rintro rpIdHash flags signCount rest credential hrpIdHash hflags rfl
    rw [parseCredential_eq_ok (by simp [authData] at hlimit; omega), finds_iff_attests]
    exact fun keys hkeys => hregular keys ⟨rpIdHash, flags, signCount, rest, hrpIdHash, hflags, rfl, hkeys⟩
  constructor
  · intro h
    rcases short_or_authData raw with hlength | ⟨rpIdHash, flags, signCount, rest, hrpIdHash, rfl⟩
    · rw [parseAuthenticatorData, if_pos hlength] at h
      cases h
    rw [parseAuthenticatorData_authData _ _ _ _ hrpIdHash] at h
    obtain ⟨credential, hcredential, h⟩ := Fallible.bind_eq_ok.mp h
    cases h
    refine ⟨hrpIdHash, rest, rfl, ?_⟩
    rw [credentialOf_eq_ok] at hcredential
    split_ifs at hcredential ⊢ with hflags
    · simpa only [hattests hrpIdHash hflags rfl] using hcredential
    · exact hcredential
  · rintro ⟨hrpIdHash, rest, hraw, hcredential⟩
    rw [hraw, parseAuthenticatorData_authData _ _ _ _ hrpIdHash]
    refine Fallible.bind_eq_ok.mpr ⟨data.credential, credentialOf_eq_ok.mpr ?_, rfl⟩
    split_ifs at hcredential ⊢ with hflags
    · simpa only [hattests hrpIdHash hflags hraw] using hcredential
    · exact hcredential

theorem Exact.regular (hlimit : raw.length < sliceLimit) (h : Exact platform raw) {keys : List UInt8}
    (hkey : HasKey raw keys) : Regular platform.stack keys := by
  obtain ⟨rpIdHash, flags, signCount, rest, hrpIdHash, hflags, rfl, hkeys⟩ := hkey
  have hrest : rest.length < sliceLimit := by simp [authData] at hlimit; omega
  have hread := parseAuthenticatorData_authData platform flags signCount rest hrpIdHash
  rw [credentialOf, if_pos hflags] at hread
  have hshallow : ¬ Deeper platform.stack keys := by
    intro hdeep
    rw [parseCredential_eq_exhausted hrest hkeys hdeep] at hread
    obtain ⟨message, hmessage⟩ := h.refused _ hread
    cases hmessage
  refine ⟨hshallow, fun word extensions entries key hword hencodes hfound => ?_⟩
  subst hword
  obtain ⟨aaguid, id, haaguid, hid, rfl⟩ := hkeys
  -- the key is accepted, and so it is laid out
  have hfinds : Finds platform _ ⟨platform.encodeBase64 id, platform.encodeBase64 word, key⟩ :=
    ⟨aaguid, id, word, extensions, entries, haaguid, hid, rfl, hshallow, hencodes, hfound, rfl, rfl⟩
  rw [parseCredential_of_finds hrest hfinds] at hread
  obtain ⟨hrpIdHash', rest', hraw, hlaid⟩ := (h.laidOut _).mp hread
  obtain ⟨-, -, -, rfl⟩ := authData_inj hrpIdHash hrpIdHash' hraw
  rw [if_pos hflags] at hlaid
  obtain ⟨credential, hcredential, aaguid', id', word', extensions', haaguid', hid', hrest',
    ⟨entries', hencodes', hsaid⟩, -⟩ := hlaid
  cases hcredential
  -- and the map it says is the one that is read
  have hsame : word ++ extensions = word' ++ extensions' :=
    KeyAt.unique ⟨aaguid, id, haaguid, hid, rfl⟩ ⟨aaguid', id', haaguid', hid', hrest'⟩
  have hshort : (word ++ extensions).length < sliceLimit := by simp at hrest ⊢; omega
  have hfirst := Cbor.decodePrefix_of_encodes extensions hshort hencodes hshallow
  have hsecond := Cbor.decodePrefix_of_encodes extensions' (hsame ▸ hshort) hencodes' (hsame ▸ hshallow)
  rw [← hsame, hfirst] at hsecond
  obtain ⟨hmap, -⟩ := Prod.mk.inj (Except.ok.inj hsecond)
  obtain rfl := Item.map.inj hmap
  exact (CredentialKey.says_iff hfound).mp hsaid

/-- **Authenticator data** are accepted just when they are laid out, as the fields they carry;
everything else is refused with a message; and from the key that is stored the same is read
again: just where the keys in them are regular. -/
theorem parseAuthenticatorData_exact (platform : Platform) (raw : List UInt8) (hlimit : raw.length < sliceLimit)
    (hbase64 : ∀ bytes, platform.decodeBase64 (platform.encodeBase64 bytes) = some bytes) :
    Exact platform raw ↔ ∀ keys, HasKey raw keys → Regular platform.stack keys := by
  refine ⟨fun h keys hkey => h.regular hlimit hkey, fun hregular => ⟨fun data => ?_, ?_,
    fun data credential h hsome => ?_⟩⟩
  · exact parseAuthenticatorData_eq_ok hlimit hregular
  · exact answers_parseAuthenticatorData hlimit fun keys hkeys => (hregular keys hkeys).shallow
  obtain ⟨hrpIdHash, rest, hraw, hcredential⟩ := (parseAuthenticatorData_eq_ok hlimit hregular).mp h
  split_ifs at hcredential with hflags
  · obtain ⟨found, hfound, aaguid, id, key, extensions, haaguid, hid, hrest, ⟨entries, hencodes, hsaid⟩, -,
      hpublicKey⟩ := hcredential
    obtain rfl := Option.some.inj (hfound.symm.trans hsome)
    have hshallow := (hregular (key ++ extensions) ⟨_, _, _, rest, hrpIdHash, hflags, hraw, aaguid, id, haaguid, hid,
      hrest⟩).shallow
    have hlength := length_attested aaguid id key extensions
    refine ⟨key, by rw [hpublicKey, hbase64],
      parse_of_encodes ?_ (fun hdeep => hshallow (hdeep.append _)) hencodes hsaid.found⟩
    rw [hraw, hrest] at hlimit
    simp [authData] at hlimit
    omega
  · rw [hcredential] at hsome
    cases hsome

/-- Base64url, and no signature that is good. -/
def encodings (stack : ℕ) : Platform where
  stack
  hashes := SecretBox.zeroHashes
  parseJson _ := none
  encodeBase64 raw := String.ofList ((Base64Url.encode raw).map fun byte => Char.ofNat byte.toNat)
  decodeBase64 text := Base64Url.decode (text.toList.map fun c => UInt8.ofNat c.toNat)
  p256Key _ _ := false
  p256Signature _ := false
  p256Verify _ _ _ _ := false
  ed25519Key _ := false
  ed25519Verify _ _ _ := false

theorem decodeBase64_encodeBase64 (stack : ℕ) (raw : List UInt8) :
    (encodings stack).decodeBase64 ((encodings stack).encodeBase64 raw) = some raw := by
  have hbyte : ∀ byte : UInt8, UInt8.ofNat (Char.ofNat byte.toNat).toNat = byte := by
    intro byte
    have hlt := byte.toNat_lt
    have hvalid : byte.toNat.isValidChar := .inl (by omega)
    rw [Char.ofNat, dif_pos hvalid]
    exact UInt8.ofNat_toNat
  have hbytes : ((Base64Url.encode raw).map fun byte => Char.ofNat byte.toNat).map (fun c => UInt8.ofNat c.toNat) =
      Base64Url.encode raw := by
    rw [List.map_map]
    exact List.map_id'' hbyte _
  simp only [encodings, String.toList_ofList, hbytes, Base64Url.decode_encode]

/-- Authenticator data of a credential whose key begins with these bytes. -/
def sample (keys : List UInt8) : List UInt8 :=
  authData (List.replicate 32 5) 0xc1 6 (attested (List.replicate 16 0) [1, 2, 3] keys [])

theorem regular_of_read {stack n : ℕ} {keys : List UInt8} {entries : List (Item × Item)}
    (hlimit : keys.length < sliceLimit) (h : Cbor.decodePrefix stack keys = .ok (.map entries, n))
    (hplain : CredentialKey.Plain entries) : Regular stack keys := by
  have hshallow := ((Cbor.decodePrefix_eq_ok hlimit).mp h).1
  refine ⟨hshallow, fun word extensions entries' key hkeys hencodes _ => ?_⟩
  subst hkeys
  rw [Cbor.decodePrefix_of_encodes extensions hlimit hencodes hshallow] at h
  obtain ⟨hmap, -⟩ := Prod.mk.inj (Except.ok.inj h)
  exact Item.map.inj hmap ▸ hplain

theorem hasKey_sample {keys keys' : List UInt8} : HasKey (sample keys) keys' ↔ keys' = keys := by
  have hkey : KeyAt (attested (List.replicate 16 0) [1, 2, 3] keys []) keys :=
    ⟨List.replicate 16 0, [1, 2, 3], rfl, by decide, by rw [attested, List.append_nil]⟩
  constructor
  · rintro ⟨rpIdHash, flags, signCount, rest, hrpIdHash, -, hraw, hkeys⟩
    obtain ⟨-, -, -, rfl⟩ := authData_inj rfl hrpIdHash hraw
    exact hkeys.unique hkey
  · rintro rfl
    exact ⟨_, _, _, _, rfl, by decide, rfl, hkey⟩

/-- An Ed25519 key: `{1: 1, 3: -8, -1: 6, -2: h'07…'}`. -/
def ed25519Key : List UInt8 := [0xa4, 0x01, 0x01, 0x03, 0x27, 0x20, 0x06, 0x21, 0x58, 0x20] ++ List.replicate 32 7

/-- The entries of the key. -/
def ed25519Entries : List (Item × Item) :=
  [(.unsigned 1, .unsigned 1), (.unsigned 3, .negative (-8)), (.negative (-1), .unsigned 6),
    (.negative (-2), .bytes (List.replicate 32 7))]

/-- The key with an extension after it. -/
theorem parseAuthenticatorData_exact_ed25519 : Exact (encodings 2) (sample (ed25519Key ++ [0xa0])) := by
  refine (parseAuthenticatorData_exact _ _ (by simp [sample, authData, attested, ed25519Key, sliceLimit])
    (decodeBase64_encodeBase64 2)).mpr fun keys hkeys => ?_
  rw [hasKey_sample.mp hkeys]
  exact regular_of_read (by decide) (show _ = Except.ok (Item.map ed25519Entries, ed25519Key.length) by rfl)
    ⟨by unfold CredentialKey.Once; decide, by decide⟩

/-- One array within another for a key, as many as the stack holds calls. -/
theorem nested_key : ¬ ∃ stack < 2 ^ 32, Exact (encodings stack) (sample (List.replicate stack 0x81)) := by
  rintro ⟨stack, hstack, h⟩
  have hlimit : (sample (List.replicate stack 0x81)).length < sliceLimit := by
    simp [sample, authData, attested, sliceLimit]
    omega
  exact (h.regular hlimit (hasKey_sample.mpr rfl)).shallow (Cbor.deeper_arrays stack)

end Omnion.Identity.WebAuthn
