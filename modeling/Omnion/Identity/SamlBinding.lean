import Mathlib.Data.List.Nodup
import Omnion.Identity.Saml
import Omnion.Library.Bytes

/-!
# What the signature of an assertion binds

An assertion is read twice: its elements are those of the parsed tree, and the bytes its
signature is over are found by searches of the text.

## The model

A provider's `SigningLog` says which `SignedInfo`s it signed, and for which content. RSA lets
no signature pass but those of the log, and the hashes have no collisions.

## What is proved

* `verifySignature_binds_iff` — where a signature is accepted, the checked bytes are those of
  the elements of the tree, and what stands outside the signature is what the provider
  signed, just when the searches meet the tree's own tags first.
* `commented_signedInfo` — an assertion with a `SignedInfo` of its own, accepted on the
  signature of another that stands before it in a comment.

## Honest scope

That a signature cannot be forged, and that hashes do not collide, is assumed of the log and
of the hashes as such, without probability.
-/

namespace Omnion.Identity.Saml

open Search

/-- What is relied on of the other crates. -/
structure Platform.Sound (platform : Platform) : Prop where
  /-- A document is read from end to end, and keeps everything in order. -/
  text : ∀ {raw d}, platform.parse raw = some d → d.text = raw
  wellFormed : ∀ {raw d}, platform.parse raw = some d → d.root.WellFormed
  sha1_injective : Function.Injective platform.sha1
  sha256_injective : Function.Injective platform.sha256
  /-- A hash of one is not a hash of the other. -/
  sha1_ne_sha256 : ∀ raw raw', platform.sha1 raw ≠ platform.sha256 raw'

variable {platform : Platform} {config : SamlConfig} {document raw : List Char} {d : Document} {block : SignatureBlock}

theorem Platform.Sound.digestFor_injective (h : platform.Sound) {algorithm algorithm' text text' : List Char}
    (heq : digestFor platform algorithm (utf8 text) = digestFor platform algorithm' (utf8 text')) : text = text' := by
  unfold digestFor at heq
  split_ifs at heq
  · exact utf8_injective (h.sha1_injective heq)
  · exact absurd heq (h.sha1_ne_sha256 _ _)
  · exact absurd heq.symm (h.sha1_ne_sha256 _ _)
  · exact utf8_injective (h.sha256_injective heq)

/-- Which `SignedInfo`s a provider signed, each for some content. -/
abbrev SigningLog := Markup → List Char → Prop

/-- The log is that of the owner of a key. -/
structure SigningLog.OfKey (platform : Platform) (key : RsaKey) (log : SigningLog) : Prop where
  wellFormed : ∀ {info content}, log info content → info.WellFormed
  /-- A `SignedInfo` declares the digest of its content. -/
  digest : ∀ {info content}, log info content →
    ∃ algorithm, infoDigest platform info = some (digestFor platform algorithm (utf8 content))
  /-- A signature that passes is one of a `SignedInfo` of the log. -/
  unforgeable : ∀ {padding hash signature}, platform.rsaVerify key padding hash signature = true →
    ∃ info content algorithm, log info content ∧ hash = digestFor platform algorithm (utf8 info.text)

/-- What the signature of an assertion is to bind. -/
structure Binds (platform : Platform) (config : SamlConfig) (d : Document) (raw : List Char) (block : SignatureBlock) :
    Prop where
  /-- The signed bytes are those of the `SignedInfo` whose reference and digest are read. -/
  signedInfo : ∃ info, findChild block.node "SignedInfo" = some info ∧ signedInfoBytes raw = some (utf8 info.text)
  /-- The digested bytes are the assertion without its signature child, and that child only. -/
  enveloped : ∃ before after, d.around "Signature" = some (before, after) ∧
    envelopedSpan raw = .ok (before.length, (before ++ block.node.text).length) ∧
    envelopedBytes raw = .ok (utf8 (before ++ after))
  /-- What stands outside the signature is what the provider signed. -/
  issued : ∀ {key log}, certificateKey platform config.certificatePem = .ok key → SigningLog.OfKey platform key log →
    ∃ before after info, d.around "Signature" = some (before, after) ∧ log info (before ++ after)

/-- The searches of the text meet the signature and its `SignedInfo` as the tree has them. -/
structure Plain (d : Document) (raw : List Char) (block : SignatureBlock) : Prop where
  /-- The opening tag searched for is first that of the signature, and the closing tag of its
  name first comes where it ends. -/
  signature : ∃ before after, d.around "Signature" = some (before, after) ∧
    First (signatureOpening raw) before ∧ SignatureText (signatureOpening raw) block.node.text
  /-- The opening tag searched for is first that of the `SignedInfo` or of a copy of it, and the
  closing tag first comes where it ends. -/
  signedInfo : ∃ info before after, findChild block.node "SignedInfo" = some info ∧
    raw = before ++ (info.text ++ after) ∧ First (signedInfoTags raw).1 before ∧
      TaggedText (signedInfoTags raw) info.text

theorem signedInfoBytes_eq_some {text : List Char} :
    signedInfoBytes raw = some (utf8 text) ↔ signedInfoText raw = some text := by
  rw [signedInfoBytes, Option.map_eq_some_iff]
  constructor
  · rintro ⟨text', h, heq⟩
    rw [h, utf8_injective heq]
  · exact fun h => ⟨text, h, rfl⟩

theorem envelopedSpan_eq_child {before text after : List Char} (hraw : raw = before ++ (text ++ after)) :
    envelopedSpan raw = .ok (before.length, (before ++ text).length) ↔
      First (signatureOpening raw) before ∧ SignatureText (signatureOpening raw) text := by
  rw [envelopedSpan_eq_ok]
  constructor
  · rintro ⟨before', text', after', hraw', hbefore, htext, hfirst, hsignature⟩
    obtain ⟨rfl, hrest⟩ := List.append_inj (hraw'.symm.trans hraw) hbefore
    rw [List.length_append, List.length_append, Nat.add_left_cancel_iff] at htext
    obtain ⟨rfl, -⟩ := List.append_inj hrest htext
    exact ⟨hfirst, hsignature⟩
  · exact fun ⟨hfirst, hsignature⟩ => ⟨before, text, after, hraw, rfl, rfl, hfirst, hsignature⟩

/-- What is accepted on the `SignedInfo` of the tree is what the provider signed. -/
theorem issued_of_verified (hsound : platform.Sound) {info : Markup} {content : List Char}
    {key : RsaKey} {log : SigningLog}
    (hverified : Verified platform block raw d.root config) (hinfo : findChild block.node "SignedInfo" = some info)
    (hwell : info.WellFormed) (hsigned : signedInfoBytes raw = some (utf8 info.text))
    (henveloped : envelopedBytes raw = .ok (utf8 content))
    (hkey : certificateKey platform config.certificatePem = .ok key) (hlog : SigningLog.OfKey platform key log) :
    log info content := by
  obtain ⟨-, ⟨_, henveloped', hdigest⟩, _, signature, key', hsigned', -, hkey', hverify⟩ := hverified
  obtain rfl := Except.ok.inj (hkey'.symm.trans hkey)
  obtain rfl := Except.ok.inj (henveloped'.symm.trans henveloped)
  obtain rfl := Option.some.inj (hsigned'.symm.trans hsigned)
  obtain ⟨info', content', algorithm, hmem, hhash⟩ := hlog.unforgeable hverify
  -- The signed text is that of an element of the log, so it is that element.
  obtain rfl := Markup.text_injective hwell (hlog.wellFormed hmem) (hsound.digestFor_injective hhash)
  obtain ⟨algorithm', hdeclared⟩ := hlog.digest hmem
  rw [signedInfoDigest, hinfo, Option.bind_some, hdeclared, Option.some.injEq] at hdigest
  rwa [← hsound.digestFor_injective hdigest]

theorem parse_of_findAssertion (h : findAssertion platform document = some (d, raw)) :
    platform.parse raw = some d := by
  simp only [findAssertion, Option.bind_eq_bind, Option.bind_eq_some_iff] at h
  obtain ⟨text, -, element, hparse, heq⟩ := h
  cases heq
  exact hparse

theorem node_of_findSignature {element : Markup} (h : findSignature platform element = some block) :
    findChild element "Signature" = some block.node := by
  simp only [findSignature, Option.bind_eq_bind, Option.bind_eq_some_iff] at h
  obtain ⟨node, hnode, method, -, algorithm, -, h⟩ := h
  split_ifs at h
  obtain ⟨signature, -, heq⟩ := Option.bind_eq_some_iff.mp h
  cases heq
  exact hnode

theorem findSignature_eq {element node : Markup} {algorithm signature : List Char} (method : Markup)
    (hnode : findChild element "Signature" = some node)
    (hmethod : (findChild node "SignatureMethod").or
      ((findChild node "SignedInfo").bind (findChild · "SignatureMethod")) = some method)
    (halgorithm : attr platform method "Algorithm" = some algorithm) (hallowed : algorithm ∈ allowedAlgorithms)
    (hsignature : (((findChild node "SignatureValue").bind platform.getText).map trim).filter
      (fun v => v ≠ [] ∧ (utf8 v).length ≤ maxSignatureField) = some signature) :
    findSignature platform element = some { algorithm, signature, node } := by
  simp only [findSignature, hnode, hmethod, halgorithm, hsignature, Option.bind_eq_bind, Option.bind_some,
    not_not.mpr hallowed, if_false]
  rfl

/-- Where a signature is accepted, it binds what it is to bind just when the searches of the
text meet the elements of the tree. -/
theorem verifySignature_binds_iff (hsound : platform.Sound)
    (hfind : findAssertion platform document = some (d, raw))
    (hblock : findSignature platform d.root = some block)
    (haccepted : verifySignature platform block raw d.root config = .ok ()) :
    Binds platform config d raw block ↔ Plain d raw block := by
  have hparse := parse_of_findAssertion hfind
  have hnode := node_of_findSignature hblock
  have hverified := verifySignature_eq_ok.mp haccepted
  obtain ⟨before, after, haround, htext⟩ := exists_around hnode
  rw [hsound.text hparse] at htext
  constructor
  · rintro ⟨⟨info, hinfo, hsigned⟩, ⟨before', after', haround', hspan, -⟩, -⟩
    obtain ⟨rfl, rfl⟩ := Prod.mk.inj (Option.some.inj (haround.symm.trans haround'))
    obtain ⟨hfirst, hsignature⟩ := (envelopedSpan_eq_child htext).mp hspan
    obtain ⟨earlier, later, hraw, hopen, htagged⟩ := signedInfoText_eq_some.mp (signedInfoBytes_eq_some.mp hsigned)
    exact ⟨⟨before, after, haround, hfirst, hsignature⟩, ⟨info, earlier, later, hinfo, hraw, hopen, htagged⟩⟩
  · rintro ⟨⟨before', after', haround', hfirst, hsignature⟩, ⟨info, earlier, later, hinfo, hraw, hopen, htagged⟩⟩
    obtain ⟨rfl, rfl⟩ := Prod.mk.inj (Option.some.inj (haround.symm.trans haround'))
    have hspan := (envelopedSpan_eq_child htext).mpr ⟨hfirst, hsignature⟩
    have henveloped : envelopedBytes raw = .ok (utf8 (before ++ after)) := by
      rw [htext] at hspan ⊢
      exact envelopedBytes_eq hspan
    have hsigned := signedInfoBytes_eq_some.mpr (signedInfoText_eq_some.mpr ⟨earlier, later, hraw, hopen, htagged⟩)
    have hwell := wellFormed_of_findChild (wellFormed_of_findChild (hsound.wellFormed hparse) hnode) hinfo
    refine ⟨⟨info, hinfo, hsigned⟩, ⟨before, after, haround, hspan, henveloped⟩, fun hkey hlog => ?_⟩
    exact ⟨before, after, info, haround,
      issued_of_verified hsound hverified hinfo hwell hsigned henveloped hkey hlog⟩

/-! ### Two assertions -/

/-- The value of a digit of base64. -/
def base64Value (c : Char) : ℕ :=
  if 'a' ≤ c then c.toNat - 'a'.toNat + 26
  else if 'A' ≤ c then c.toNat - 'A'.toNat
  else if '0' ≤ c then c.toNat - '0'.toNat + 52
  else if c = '+' then 62
  else 63

/-- The bytes of a text in base64. -/
def ofBase64 : List Char → List UInt8
  | a :: b :: c :: d :: rest =>
    let first := UInt8.ofNat (base64Value a * 4 + base64Value b / 16)
    let second := UInt8.ofNat (base64Value b % 16 * 16 + base64Value c / 4)
    let third := UInt8.ofNat (base64Value c % 4 * 64 + base64Value d)
    if c = '=' then [first] else if d = '=' then [first, second] else first :: second :: third :: ofBase64 rest
  | _ => []

/-- The characters of a text that is written out. -/
def spell (s : String) {l : List Char} (_ : s.toList = l := by exact String.toList_ofList) : List Char := l

/-- The certificate of a provider, of a key of 512 bits. -/
def providerConfig : SamlConfig :=
  ⟨spell "MFowCwYJKoZIhvcNAQEBA0sAMEgCQQC1IsHpmBA5R3I2R96pxJMoROI4+KdK1P5R3tzeRnQ6" ++
    spell "hpGo7QZmvmHDO6Cqzll6ZnU8SwA+HhgyFNoQWjsYKg0vAgMBAAE="⟩

/-- A `SignedInfo` that declares a digest. -/
def signedInfoOf (digest : List Char) : Markup :=
  .element (spell "ds:SignedInfo")
    [.empty (spell "ds:SignatureMethod Algorithm=\"http://www.w3.org/2001/04/xmldsig-more#rsa-sha256\""),
      .element (spell "ds:Reference URI=\"#id-1\"")
        [.empty (spell "ds:DigestMethod Algorithm=\"http://www.w3.org/2001/04/xmlenc#sha256\""),
          .element (spell "ds:DigestValue") (digest.map .char) (spell "ds:DigestValue")]
        (spell "ds:Reference")]
    (spell "ds:SignedInfo")

/-- The digest of the assertion about `alice`. -/
def digestOfAlice : List Char := spell "PAwxwva2y5zVxGUpRx+ANH6tZs98j0sAQr3/RXfSaeg="

/-- The digest of the assertion about `admin`. -/
def digestOfAdmin : List Char := spell "wkqF16YqIlHAjopAr30E+vlSIACT+5MoFFdo0KnzJ+8="

/-- The digest of the `SignedInfo` with the digest of the one about `alice`. -/
def signedDigest : List Char := spell "Yk6R3YhgJiAmbn9JN+oV5I3x7poSkar8PbvDx2DFEAE="

/-- The provider's signature of the `SignedInfo` with the digest of the one about `alice`. -/
def signatureValue : List Char :=
  spell "E+ZguwR1VNcGjssrVAMTBfLO+tCrGuwx4QQkXuVT0sW9OJUJ0Yu5TLpwT91ONT0pkLJRVoeEBneFrMlOpOZdYw=="

/-- The signature of an assertion, with this content before its value. -/
def signatureOf (content : List Markup) : Markup :=
  .element (spell "ds:Signature xmlns:ds=\"http://www.w3.org/2000/09/xmldsig#\"")
    (content ++ [.element (spell "ds:SignatureValue") (signatureValue.map .char) (spell "ds:SignatureValue")])
    (spell "ds:Signature")

/-- An assertion about a subject, with this content before its statements. -/
def assertionOf (content : List Markup) (subject : List Char) : Document where
  before := []
  root :=
    .element (spell "saml:Assertion xmlns:saml=\"urn:oasis:names:tc:SAML:2.0:assertion\" Version=\"2.0\" ID=\"id-1\"")
      (content ++
        [.element (spell "saml:Issuer") ((spell "https://idp.example/saml").map .char) (spell "saml:Issuer"),
          .element (spell "saml:Subject")
            [.element (spell "saml:NameID") (subject.map .char) (spell "saml:NameID")] (spell "saml:Subject")])
      (spell "saml:Assertion")
  after := []

/-- The assertion the provider signed. -/
def signedAssertion : Document := assertionOf [signatureOf [signedInfoOf digestOfAlice]] (spell "alice")

/-- An assertion with the signed `SignedInfo` in a comment, before one of its own. -/
def forgedAssertion : Document :=
  assertionOf [signatureOf [.comment (signedInfoOf digestOfAlice).text, signedInfoOf digestOfAdmin]] (spell "admin")

def responseOf (assertion : Document) : List Char :=
  (spell "<samlp:Response xmlns:samlp=\"urn:oasis:names:tc:SAML:2.0:protocol\">") ++
    (assertion.text ++ (spell "</samlp:Response>"))

/-- A hash by a table of its values of 32 bytes; of others, a longer one. -/
def hashBy (table : List (List UInt8 × List UInt8)) (raw : List UInt8) : List UInt8 :=
  (table.lookup raw).getD (List.replicate 33 0 ++ raw)

/-- SHA-256 of the texts at hand. -/
def sha256Table : List (List UInt8 × List UInt8) :=
  [(utf8 (assertionOf [] (spell "alice")).text, ofBase64 digestOfAlice),
    (utf8 (assertionOf [] (spell "admin")).text, ofBase64 digestOfAdmin),
    (utf8 (signedInfoOf digestOfAlice).text, ofBase64 signedDigest)]

/-- What the digest of SHA-256 is padded with, for a key of 512 bits. -/
def sha256Padding : List UInt8 :=
  0x00 :: 0x01 :: (List.replicate 10 0xff ++
    [0x00, 0x30, 0x31, 0x30, 0x0d, 0x06, 0x09, 0x60, 0x86, 0x48, 0x01, 0x65, 0x03, 0x04, 0x02, 0x01, 0x05, 0x00,
      0x04, 0x20])

/-- What the crates do with these assertions. RSA is that of the one digest that is signed. -/
def examplePlatform : Platform where
  parse raw :=
    if raw = signedAssertion.text then some signedAssertion
    else if raw = forgedAssertion.text then some forgedAssertion
    else none
  attributes tag name := do
    let start ← find (' ' :: (name.toList ++ ['=', '"'])) tag
    pure ((tag.drop (start + name.length + 3)).takeWhile (· ≠ '"'))
  getText m :=
    let text := (childrenOf m).flatMap fun | .char c => [c] | .cdata body => body | _ => []
    if text = [] then none else some text
  decodeBase64 text := some (ofBase64 text)
  sha1 raw := List.replicate 33 1 ++ raw
  sha256 := hashBy sha256Table
  rsaKey _ := true
  rsaVerify key padding hash signature :=
    padding == .sha256 && hash == ofBase64 signedDigest &&
      Bytes.ofBe signature ^ Bytes.ofBe key.2 % Bytes.ofBe key.1 == Bytes.ofBe (sha256Padding ++ hash)

theorem hashBy_cases (table : List (List UInt8 × List UInt8)) (raw : List UInt8) :
    (raw, hashBy table raw) ∈ table ∨ hashBy table raw = List.replicate 33 0 ++ raw := by
  unfold hashBy
  cases h : table.lookup raw with
  | none => exact .inr rfl
  | some value =>
    obtain ⟨l₁, l₂, rfl, -⟩ := List.lookup_eq_some_iff.mp h
    exact .inl (by simp)

theorem hashBy_injective {table : List (List UInt8 × List UInt8)} (hnodup : (table.map Prod.snd).Nodup)
    (hlength : ∀ p ∈ table, p.2.length = 32) : Function.Injective (hashBy table) := by
  intro raw raw' heq
  have hlong : ∀ raw : List UInt8, (List.replicate 33 0 ++ raw).length ≠ 32 := by
    intro raw
    rw [List.length_append, List.length_replicate]
    omega
  obtain h | h := hashBy_cases table raw
  · obtain h' | h' := hashBy_cases table raw'
    · exact congrArg Prod.fst (List.inj_on_of_nodup_map hnodup h h' heq)
    · rw [heq, h'] at h
      exact absurd (hlength _ h) (hlong raw')
  · obtain h' | h' := hashBy_cases table raw'
    · rw [← heq, h] at h'
      exact absurd (hlength _ h') (hlong raw)
    · rw [h, h'] at heq
      exact List.append_cancel_left heq

theorem length_sha256Table : ∀ p ∈ sha256Table, p.2.length = 32 := by decide +kernel

theorem examplePlatform_sound : examplePlatform.Sound where
  text := by
    intro raw d h
    simp only [examplePlatform] at h
    split_ifs at h with hsigned hforged
    · rw [← Option.some.inj h, hsigned]
    · rw [← Option.some.inj h, hforged]
  wellFormed := by
    intro raw d h
    have hwell : signedAssertion.root.WellFormed ∧ forgedAssertion.root.WellFormed := by decide +kernel
    simp only [examplePlatform] at h
    split_ifs at h
    · rw [← Option.some.inj h]
      exact hwell.1
    · rw [← Option.some.inj h]
      exact hwell.2
  sha1_injective _ _ h := List.append_cancel_left h
  sha256_injective := hashBy_injective (by decide +kernel) length_sha256Table
  sha1_ne_sha256 := by
    intro raw raw' h
    change List.replicate 33 1 ++ raw = hashBy sha256Table raw' at h
    obtain hmem | hlong := hashBy_cases sha256Table raw'
    · have hlength := length_sha256Table _ hmem
      rw [← h, List.length_append, List.length_replicate] at hlength
      omega
    · rw [hlong] at h
      exact absurd (List.cons.inj h).1 (by decide)

/-- The `SignatureMethod` of RSA-SHA256. -/
def signatureMethod : Markup :=
  .empty (spell "ds:SignatureMethod Algorithm=\"http://www.w3.org/2001/04/xmldsig-more#rsa-sha256\"")

theorem rsaSha_eq :
    rsaSha256 = spell "http://www.w3.org/2001/04/xmldsig-more#rsa-sha256" ∧ rsaSha256 ≠ rsaSha1 := by
  have h256 : rsaSha256 = spell "http://www.w3.org/2001/04/xmldsig-more#rsa-sha256" := String.toList_ofList
  have h1 : rsaSha1 = spell "http://www.w3.org/2000/09/xmldsig#rsa-sha1" := String.toList_ofList
  refine ⟨h256, ?_⟩
  rw [h256, h1]
  decide

theorem sha256_texts :
    examplePlatform.sha256 (utf8 (assertionOf [] (spell "alice")).text) = ofBase64 digestOfAlice ∧
      examplePlatform.sha256 (utf8 (assertionOf [] (spell "admin")).text) = ofBase64 digestOfAdmin ∧
        examplePlatform.sha256 (utf8 (signedInfoOf digestOfAlice).text) = ofBase64 signedDigest := by
  refine ⟨?_, ?_, ?_⟩ <;> decide +kernel

theorem digestFor_rsaSha256 (raw : List UInt8) : digestFor examplePlatform rsaSha256 raw = examplePlatform.sha256 raw :=
  if_neg rsaSha_eq.2

theorem infoDigest_signedInfoOf {digest : List Char} (h : digest = digestOfAlice ∨ digest = digestOfAdmin) :
    infoDigest examplePlatform (signedInfoOf digest) = some (ofBase64 digest) := by
  rcases h with rfl | rfl <;> rfl

def providerLog : SigningLog := fun info content =>
  info = signedInfoOf digestOfAlice ∧ content = (assertionOf [] (spell "alice")).text

theorem providerLog_ofKey (key : RsaKey) : providerLog.OfKey examplePlatform key where
  wellFormed := by
    rintro info content ⟨rfl, -⟩
    decide +kernel
  digest := by
    rintro info content ⟨rfl, rfl⟩
    exact ⟨rsaSha256, by rw [digestFor_rsaSha256, sha256_texts.1, infoDigest_signedInfoOf (.inl rfl)]⟩
  unforgeable := by
    intro padding hash signature h
    simp only [examplePlatform, Bool.and_eq_true, beq_iff_eq] at h
    refine ⟨_, _, rsaSha256, ⟨rfl, rfl⟩, h.1.2.trans ?_⟩
    rw [digestFor_rsaSha256, sha256_texts.2.2]

/-- The signature block of an assertion, of RSA-SHA256. -/
def blockOf (content : List Markup) : SignatureBlock := ⟨rsaSha256, signatureValue, signatureOf content⟩

/-- The provider's key made the signature of the `SignedInfo` with the digest of the one about `alice`. -/
theorem rsaVerify_signatureValue : ∃ key, certificateKey examplePlatform providerConfig.certificatePem = .ok key ∧
    examplePlatform.rsaVerify key .sha256 (ofBase64 signedDigest) (ofBase64 signatureValue) = true := by
  have h : (certificateKey examplePlatform providerConfig.certificatePem).toOption.map (fun key =>
      examplePlatform.rsaVerify key .sha256 (ofBase64 signedDigest) (ofBase64 signatureValue)) = some true := by
    decide +kernel
  obtain ⟨key, hkey, hverify⟩ := Option.map_eq_some_iff.mp h
  refine ⟨key, ?_, hverify⟩
  cases hc : certificateKey examplePlatform providerConfig.certificatePem with
  | error stop =>
    rw [hc] at hkey
    cases hkey
  | ok other =>
    rw [hc] at hkey
    rw [Option.some.inj hkey]

/-- An assertion is accepted whose texts are found to be signed. -/
theorem accepted_of_texts {content : List Markup} {subject : List Char} (digest : List Char)
    (hblock : findSignature examplePlatform (assertionOf [signatureOf content] subject).root = some (blockOf content))
    (hreference : signedInfoReference examplePlatform (signatureOf content) = some (spell "#id-1"))
    (hid : assertionId examplePlatform (assertionOf [signatureOf content] subject).root = some (spell "id-1"))
    (hdeclared : signedInfoDigest examplePlatform (signatureOf content) = some (ofBase64 digest))
    (henveloped : envelopedBytes (assertionOf [signatureOf content] subject).text =
      .ok (utf8 (assertionOf [] subject).text))
    (hdigest : examplePlatform.sha256 (utf8 (assertionOf [] subject).text) = ofBase64 digest)
    (hsigned : signedInfoBytes (assertionOf [signatureOf content] subject).text =
      some (utf8 (signedInfoOf digestOfAlice).text)) :
    ∃ block, findSignature examplePlatform (assertionOf [signatureOf content] subject).root = some block ∧
      verifySignature examplePlatform block (assertionOf [signatureOf content] subject).text
        (assertionOf [signatureOf content] subject).root providerConfig = .ok () := by
  obtain ⟨key, hkey, hverify⟩ := rsaVerify_signatureValue
  have hfor : ∀ raw, digestFor examplePlatform (blockOf content).algorithm raw = examplePlatform.sha256 raw :=
    fun raw => if_neg rsaSha_eq.2
  have hpadding : paddingFor (blockOf content).algorithm = .sha256 := if_neg rsaSha_eq.2
  refine ⟨_, hblock, verifySignature_eq_ok.mpr ⟨⟨_, hreference, .inr hid⟩, ⟨_, henveloped, ?_⟩,
    ⟨_, _, key, hsigned, rfl, hkey, ?_⟩⟩⟩
  · rw [hfor, hdigest]
    exact hdeclared
  · rw [hfor, hpadding, sha256_texts.2.2]
    exact hverify

theorem signed_accepted : ∃ block, findSignature examplePlatform signedAssertion.root = some block ∧
    verifySignature examplePlatform block signedAssertion.text signedAssertion.root providerConfig = .ok () := by
  refine accepted_of_texts digestOfAlice ?_ (by decide +kernel) (by decide +kernel) (by decide +kernel)
    (by decide +kernel) sha256_texts.1 (by decide +kernel)
  refine findSignature_eq signatureMethod rfl rfl ?_ (.head _) ?_
  · rw [rsaSha_eq.1]
    decide +kernel
  · decide +kernel

theorem forged_accepted : ∃ block, findSignature examplePlatform forgedAssertion.root = some block ∧
    verifySignature examplePlatform block forgedAssertion.text forgedAssertion.root providerConfig = .ok () := by
  refine accepted_of_texts digestOfAdmin ?_ (by decide +kernel) (by decide +kernel) (by decide +kernel)
    (by decide +kernel) sha256_texts.2.1 (by decide +kernel)
  refine findSignature_eq signatureMethod rfl rfl ?_ (.head _) ?_
  · rw [rsaSha_eq.1]
    decide +kernel
  · decide +kernel

theorem both_accepted {d : Document} (h : d = signedAssertion ∨ d = forgedAssertion) :
    findAssertion examplePlatform (responseOf d) = some (d, d.text) ∧
      ∃ block, findSignature examplePlatform d.root = some block ∧
        verifySignature examplePlatform block d.text d.root providerConfig = .ok () := by
  obtain rfl | rfl := h
  · have hloop : findAssertionLoop 0 (responseOf signedAssertion) = some signedAssertion.text := by decide +kernel
    have hparse : examplePlatform.parse signedAssertion.text = some signedAssertion := by
      simp only [examplePlatform, if_true]
    refine ⟨?_, signed_accepted⟩
    simp only [findAssertion, hloop, hparse, Option.bind_eq_bind, Option.bind_some, Option.pure_def]
  · have hloop : findAssertionLoop 0 (responseOf forgedAssertion) = some forgedAssertion.text := by decide +kernel
    have hne : forgedAssertion.text ≠ signedAssertion.text := by decide +kernel
    have hparse : examplePlatform.parse forgedAssertion.text = some forgedAssertion := by
      simp only [examplePlatform, if_neg hne, if_true]
    refine ⟨?_, forged_accepted⟩
    simp only [findAssertion, hloop, hparse, Option.bind_eq_bind, Option.bind_some, Option.pure_def]

/-- An assertion whose own `SignedInfo` is not signed is accepted. -/
theorem commented_signedInfo :
    ¬ ∀ (platform : Platform) (config : SamlConfig) (document raw : List Char) (d : Document) (block : SignatureBlock),
      platform.Sound → findAssertion platform document = some (d, raw) →
      findSignature platform d.root = some block → verifySignature platform block raw d.root config = .ok () →
      Binds platform config d raw block := by
  intro h
  obtain ⟨hfind, block, hblock, haccepted⟩ := both_accepted (.inr rfl)
  have hbinds := h examplePlatform providerConfig _ _ _ block examplePlatform_sound hfind hblock haccepted
  obtain ⟨key, hkey⟩ : ∃ key, certificateKey examplePlatform providerConfig.certificatePem = .ok key := by
    obtain ⟨-, -, _, _, key, -, -, hkey, -⟩ := verifySignature_eq_ok.mp haccepted
    exact ⟨key, hkey⟩
  -- What stands outside the signature is about another subject than what was signed.
  obtain ⟨before, after, info, haround, -, hcontent⟩ := hbinds.issued hkey (providerLog_ofKey key)
  have houtside : (forgedAssertion.around "Signature").map (fun p =>
      decide (p.1 ++ p.2 = (assertionOf [] (spell "alice")).text)) = some false := by decide +kernel
  rw [haround, Option.map_some, Option.some.injEq] at houtside
  exact of_decide_eq_false houtside hcontent

/-- The signature of the assertion that was signed binds what it is to bind. -/
theorem signedAssertion_binds :
    ∃ block, findSignature examplePlatform signedAssertion.root = some block ∧
      Binds examplePlatform providerConfig signedAssertion signedAssertion.text block := by
  obtain ⟨hfind, block, hblock, haccepted⟩ := both_accepted (.inl rfl)
  refine ⟨block, hblock, (verifySignature_binds_iff examplePlatform_sound hfind hblock haccepted).mpr ?_⟩
  have hnode := node_of_findSignature hblock
  obtain ⟨before, after, haround, htext⟩ := exists_around hnode
  have hspan : (signedAssertion.around "Signature").bind (fun p =>
      (findChild signedAssertion.root "Signature").map fun node =>
        decide (envelopedSpan signedAssertion.text = .ok (p.1.length, (p.1 ++ node.text).length))) = some true := by
    decide +kernel
  have hinfo : ((findChild signedAssertion.root "Signature").bind (findChild · "SignedInfo")).map (fun info =>
      decide (signedInfoText signedAssertion.text = some info.text)) = some true := by decide +kernel
  rw [haround, hnode, Option.bind_some, Option.map_some, Option.some.injEq, decide_eq_true_eq,
    envelopedSpan_eq_child htext] at hspan
  rw [hnode, Option.bind_some] at hinfo
  obtain ⟨info, hchild, hread⟩ := Option.map_eq_some_iff.mp hinfo
  obtain ⟨earlier, later, hraw, hfirst, htagged⟩ := signedInfoText_eq_some.mp (of_decide_eq_true hread)
  exact ⟨⟨before, after, haround, hspan.1, hspan.2⟩, ⟨info, earlier, later, hchild, hraw, hfirst, htagged⟩⟩

end Omnion.Identity.Saml
