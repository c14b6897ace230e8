import Mathlib.Data.List.DropRight
import Omnion.Core.Text
import Omnion.Library.Markup
import Omnion.Library.Reader

/-!
# Signed assertions

`crates/identity/src/sso/saml.rs`: a posted SAML response, the assertion in it and the
signature on the assertion.

## The model

A text is its list of characters, and offsets count them. The XML reader, base64, the hashes
and RSA are of other crates and a parameter, `Platform`; an element is kept as the piece of
markup it was read from. A check answers or refuses with a message; `Stop.outside` is where a
slice would panic. What is read of an assertion once it is verified is left out.

## What is proved

* `envelopedSpan_eq_ok`, `signedInfoText_eq_some` — what the two searches of the text find.
* `exists_around` — the text of a document is what stands before a child, the child, and what
  stands after it.
* `verifySignature_eq_ok` — what holds of a signature that is accepted.
-/

namespace Omnion.Identity.Saml

open Search
open Text (isWhitespace)

/-! ### What is used of other crates -/

/-- A document as it was read: its root element, and what stands before and after it. -/
structure Document where
  /-- What stands before the root element. -/
  before : List Char
  root : Markup
  /-- What stands after the root element. -/
  after : List Char

def Document.text (d : Document) : List Char := d.before ++ (d.root.text ++ d.after)

/-- The hash a `Pkcs1v15Sign` is of. -/
inductive Padding where
  /-- `sha1::Sha1`. -/
  | sha1
  /-- `Sha256`. -/
  | sha256
  deriving DecidableEq

/-- An RSA public key: its modulus and its exponent. -/
abbrev RsaKey := List UInt8 × List UInt8

/-- What the module uses of other crates. -/
structure Platform where
  /-- `xmltree::Element::parse`. -/
  parse : List Char → Option Document
  /-- An attribute of an element, of what stands in its tag. -/
  attributes : List Char → String → Option (List Char)
  /-- `Element::get_text`. -/
  getText : Markup → Option (List Char)
  /-- `STANDARD.decode`. -/
  decodeBase64 : List Char → Option (List UInt8)
  /-- `sha1::Sha1`. -/
  sha1 : List UInt8 → List UInt8
  /-- `Sha256`. -/
  sha256 : List UInt8 → List UInt8
  /-- `RsaPublicKey::new` takes the key. -/
  rsaKey : RsaKey → Bool
  /-- `RsaPublicKey::verify`, of a hash and a signature. -/
  rsaVerify : RsaKey → Padding → List UInt8 → List UInt8 → Bool

/-- The bytes of a text. -/
def utf8 (text : List Char) : List UInt8 := text.flatMap String.utf8EncodeChar

theorem utf8_injective {text text' : List Char} (h : utf8 text = utf8 text') : text = text' :=
  String.ofList_injective (String.toByteArray_inj.mp (congrArg List.toByteArray h))

/-! ### Refusals -/

variable {α β : Type} {message : String}

/-- `IdentityError::InvalidProvider`. -/
def invalidProvider (message : String) : Except (Stop String) α := .error (.refused message)

/-- `ok_or_else`. -/
def okOrElse (message : String) : Option α → Except (Stop String) α
  | some a => .ok a
  | none => invalidProvider message

@[simp] theorem okOrElse_eq_ok {o : Option α} {a : α} : okOrElse message o = .ok a ↔ o = some a := by
  cases o <;> simp [okOrElse, invalidProvider]

/-- Refuse unless a condition holds. -/
def ensure (p : Prop) [Decidable p] (message : String) : Except (Stop String) Unit :=
  if p then .ok () else invalidProvider message

@[simp] theorem ensure_eq_ok {p : Prop} [Decidable p] {a : Unit} : ensure p message = .ok a ↔ p := by
  unfold ensure
  split <;> simp [invalidProvider, *]

/-! ### Names and children -/

def nameEnds : List Char := [' ', '\t', '\n', '\r', '>', '/']

/-- The qualified name of an opening tag. -/
def qualifiedName (tag : List Char) : List Char :=
  (tag.dropWhile (· == '<')).takeWhile fun c => !nameEnds.contains c

/-- The local name of an opening tag, without its namespace prefix. -/
def localNameOf (tag : List Char) : List Char := (qualifiedName tag).rtakeWhile (· != ':')

/-- The local name of an element. -/
def nameOf : Markup → Option (List Char)
  | .empty tag | .element tag _ _ => some (localNameOf tag)
  | _ => none

/-- The children of an element. -/
def childrenOf : Markup → List Markup
  | .element _ children _ => children
  | _ => []

/-- The piece of markup is an element of this local name. -/
def isNamed (name : String) (m : Markup) : Bool := nameOf m == some name.toList

/-- A direct child element by local name. -/
def findChild (element : Markup) (name : String) : Option Markup := (childrenOf element).find? (isNamed name)

/-- What stands in the tag of an element. -/
def tagOf : Markup → List Char
  | .empty tag | .element tag _ _ => tag
  | _ => []

/-- `str::trim`. -/
def trim (text : List Char) : List Char := (text.dropWhile isWhitespace).rdropWhile isWhitespace

/-- An element attribute by name, trimmed. -/
def attr (platform : Platform) (element : Markup) (name : String) : Option (List Char) :=
  ((platform.attributes (tagOf element) name).map trim).filter (· ≠ [])

/-! ### The assertion of a response -/

def closingTag (name : List Char) : List Char := '<' :: '/' :: (name ++ ['>'])

/-- The end of the element with whose opening tag the text begins. -/
def findClose (text tag : List Char) : Option ℕ :=
  if ['/', '>'].isSuffixOf (tag.rdropWhile isWhitespace) then none
  else do
    let closeStart ← find (closingTag (qualifiedName tag)) text
    let closeEnd ← find ['>'] (text.drop closeStart)
    pure (closeStart + closeEnd + 1)

/-- What opens with an angle bracket and is no opening tag. -/
def otherOpenings : List (List Char) := ["</".toList, "<!--".toList, "<?".toList, "<!".toList]

/-- The loop of `find_assertion`, over what is left of the document: so many characters of it
are before the cursor. Answers the text of the assertion. -/
def findAssertionLoop : ℕ → List Char → Option (List Char)
  | _, [] => none
  | n + 1, _ :: rest => findAssertionLoop n rest
  | 0, c :: rest =>
    if c ≠ '<' then findAssertionLoop 0 rest
    else
      match find ['>'] (c :: rest) with
      | none => none
      | some tagEnd =>
        let tag := (c :: rest).take (tagEnd + 1)
        if otherOpenings.any (·.isPrefixOf (c :: rest)) then findAssertionLoop tagEnd rest
        else if localNameOf tag = "Assertion".toList then
          (findClose (c :: rest) tag).map ((c :: rest).take ·)
        else findAssertionLoop tagEnd rest

/-- Locate the assertion element and return it with its exact source text. -/
def findAssertion (platform : Platform) (document : List Char) : Option (Document × List Char) := do
  let raw ← findAssertionLoop 0 document
  let element ← platform.parse raw
  pure (element, raw)

/-- The pattern occurs in the text. -/
def contains (text : List Char) (pat : String) : Bool := (find pat.toList text).isSome

/-! ### The signature block -/

/-- Largest `SignatureValue` or digest accepted inside one signature. -/
def maxSignatureField : ℕ := 16 * 1024

/-- RSA-SHA256. -/
def rsaSha256 : List Char := "http://www.w3.org/2001/04/xmldsig-more#rsa-sha256".toList

/-- RSA-SHA1. -/
def rsaSha1 : List Char := "http://www.w3.org/2000/09/xmldsig#rsa-sha1".toList

/-- The algorithms this platform verifies. -/
def allowedAlgorithms : List (List Char) := [rsaSha256, rsaSha1]

/-- The pieces of an XML signature this module verifies. -/
structure SignatureBlock where
  /-- The `SignatureMethod` URI. -/
  algorithm : List Char
  /-- The base64 `SignatureValue`. -/
  signature : List Char
  /-- The `Signature` element. -/
  node : Markup

/-- Read the signature block of an assertion. -/
def findSignature (platform : Platform) (element : Markup) : Option SignatureBlock := do
  let node ← findChild element "Signature"
  let method ← (findChild node "SignatureMethod").or
    ((findChild node "SignedInfo").bind (findChild · "SignatureMethod"))
  let algorithm ← attr platform method "Algorithm"
  if algorithm ∉ allowedAlgorithms then none
  else
    let value := (findChild node "SignatureValue").bind platform.getText
    let signature ← (value.map trim).filter fun v => v ≠ [] ∧ (utf8 v).length ≤ maxSignatureField
    pure { algorithm, signature, node }

/-! ### The signed text -/

/-- What ends a name in `enveloped_bytes`. -/
def isNameEnd (c : Char) : Bool := c == ' ' || c == '>' || c == '/'

/-- Where the signature element is, as a search of the text finds it. -/
def envelopedSpan (raw : List Char) : Except (Stop String) (ℕ × ℕ) := do
  let openAt ← okOrElse "the assertion carries no signature element"
    ((find "<ds:Signature".toList raw).or (find "<Signature".toList raw))
  let nameLength ← okOrElse "the signature element is malformed" ((raw.drop openAt).findIdx? isNameEnd)
  let name := ((raw.drop openAt).take nameLength).dropWhile (· == '<')
  let bodyStart ← okOrElse "the signature element is malformed"
    ((find ['>'] (raw.drop openAt)).map fun offset => openAt + offset + 1)
  let closing := closingTag name
  let closeAt ← okOrElse "the signature element is not closed" (find closing (raw.drop bodyStart))
  pure (openAt, bodyStart + closeAt + closing.length)

/-- The signed bytes of the assertion under the enveloped-signature transform. -/
def envelopedBytes (raw : List Char) : Except (Stop String) (List UInt8) := do
  let (openAt, stop) ← envelopedSpan raw
  pure (utf8 (raw.take openAt ++ raw.drop stop))

/-- The text of the `SignedInfo` element, as a search finds it. -/
def signedInfoText (raw : List Char) : Option (List Char) :=
  let found := match find "<ds:SignedInfo".toList raw with
    | some start => some (start, "</ds:SignedInfo>".toList)
    | none => (find "<SignedInfo".toList raw).map fun start => (start, "</SignedInfo>".toList)
  found.bind fun (start, close) =>
    (find close (raw.drop start)).map fun stop => (raw.drop start).take (stop + close.length)

/-- The signed bytes of the `SignedInfo` element. -/
def signedInfoBytes (raw : List Char) : Option (List UInt8) := (signedInfoText raw).map utf8

/-- The `URI` of the reference the signature covers. -/
def signedInfoReference (platform : Platform) (signature : Markup) : Option (List Char) := do
  let info ← findChild signature "SignedInfo"
  let reference ← findChild info "Reference"
  attr platform reference "URI"

/-- The `DigestValue` a `SignedInfo` declares. -/
def infoDigest (platform : Platform) (info : Markup) : Option (List UInt8) := do
  let reference ← findChild info "Reference"
  let value ← findChild reference "DigestValue"
  let text ← platform.getText value
  platform.decodeBase64 (trim text)

/-- The `DigestValue` the signature declares, decoded to bytes. -/
def signedInfoDigest (platform : Platform) (signature : Markup) : Option (List UInt8) :=
  (findChild signature "SignedInfo").bind (infoDigest platform)

/-- `trim_start_matches('#')`. -/
def trimHashes (text : List Char) : List Char := text.dropWhile (· == '#')

/-- The `ID` of the assertion element, without its `#`. -/
def assertionId (platform : Platform) (element : Markup) : Option (List Char) :=
  (attr platform element "ID").map trimHashes

/-! ### The certificate -/

/-- What a DER reader answers. -/
abbrev Der (α : Type) := Except (Stop Unit) α

/-- Refuse the input. -/
def Der.none : Der α := .error (.refused ())

/-- Read a DER length, short form or long form. -/
def derLength : List UInt8 → Der (ℕ × List UInt8)
  | [] => Der.none
  | first :: rest =>
    if first < 0x80 then .ok (first.toNat, rest)
    else
      let count := (first &&& 0x7f).toNat
      if count = 0 ∨ count > 4 then Der.none
      -- The bytes of the length are sliced, whether or not the input has them.
      else if rest.length < count then .error .outside
      else .ok ((rest.take count).foldl (fun length byte => (length <<< 8) ||| byte.toNat) 0, rest.drop count)

/-- Read an element with the given tag, returning its contents and the bytes after it. -/
def derElement (tag : UInt8) : List UInt8 → Der (List UInt8 × List UInt8)
  | [] => Der.none
  | first :: rest =>
    if first ≠ tag then Der.none
    else do
      let (length, rest) ← derLength rest
      if rest.length < length then Der.none else pure (rest.take length, rest.drop length)

/-- Read one DER SEQUENCE, returning its contents and the bytes after it. -/
def derSequence : List UInt8 → Der (List UInt8 × List UInt8) := derElement 0x30

/-- Read an INTEGER as unsigned big-endian bytes, dropping the DER sign byte. -/
def derInteger (input : List UInt8) : Der (List UInt8 × List UInt8) := do
  let (value, rest) ← derElement 0x02 input
  let value := if value.head? = some 0x00 then value.tail else value
  if value = [] then Der.none else pure (value, rest)

/-- Read the RSA modulus and exponent out of a DER `SubjectPublicKeyInfo`. -/
def spkiRsaKey (der : List UInt8) : Der RsaKey := do
  let (contents, _) ← derSequence der
  let (_, contents) ← derElement 0x30 contents
  let (bitString, _) ← derElement 0x03 contents
  let keyDer ← match bitString with
    | 0x00 :: keyDer => pure keyDer
    | _ => Der.none
  let (rsaDer, _) ← derSequence keyDer
  let (modulus, rest) ← derInteger rsaDer
  let (exponent, _) ← derInteger rest
  pure (modulus, exponent)

/-- `ok_or_else`, of what a DER reader answers. -/
def Der.okOrElse (message : String) : Der α → Except (Stop String) α
  | .ok a => .ok a
  | .error (.refused ()) => invalidProvider message
  | .error .outside => .error .outside
  | .error .exhausted => .error .exhausted

/-- Parse a PEM certificate into the RSA public key it carries. -/
def certificateKey (platform : Platform) (pem : List Char) : Except (Stop String) RsaKey := do
  let lines := (pem.splitOn '\n').filter fun line => !"-----".toList.isPrefixOf line
  let cleaned := lines.flatten.filter fun c => !isWhitespace c
  let der ← okOrElse "the signing certificate is not valid base64" (platform.decodeBase64 cleaned)
  let key ← Der.okOrElse "the signing certificate is not an RSA certificate" (spkiRsaKey der)
  if platform.rsaKey key then pure key else invalidProvider "the signing certificate is not a valid RSA key"

/-! ### The check of a signature -/

/-- What a provider's configuration says of its signatures. -/
structure SamlConfig where
  /-- The provider's signing certificate, PEM. -/
  certificatePem : List Char

/-- Hash the signed bytes with the algorithm the signature names. -/
def digestFor (platform : Platform) (algorithm : List Char) (raw : List UInt8) : List UInt8 :=
  if algorithm = rsaSha1 then platform.sha1 raw else platform.sha256 raw

/-- The padding of the signature algorithm. -/
def paddingFor (algorithm : List Char) : Padding := if algorithm = rsaSha1 then .sha1 else .sha256

/-- Verify a posted assertion's signature. -/
def verifySignature (platform : Platform) (block : SignatureBlock) (raw : List Char) (element : Markup)
    (config : SamlConfig) : Except (Stop String) Unit := do
  let signature ← okOrElse "the signature value is not base64" (platform.decodeBase64 block.signature)
  let publicKey ← certificateKey platform config.certificatePem
  let reference ← okOrElse "the signature references nothing" (signedInfoReference platform block.node)
  ensure (reference = [] ∨ assertionId platform element = some (trimHashes reference))
    "the signature covers a different element"
  let declared ← okOrElse "the signature declares no digest" (signedInfoDigest platform block.node)
  let enveloped ← envelopedBytes raw
  ensure (digestFor platform block.algorithm enveloped = declared)
    "the assertion does not match its own signature digest"
  let signed ← okOrElse "the signature names no SignedInfo" (signedInfoBytes raw)
  ensure (platform.rsaVerify publicKey (paddingFor block.algorithm)
    (digestFor platform block.algorithm signed) signature)
    "the assertion signature is not valid for this provider"

/-! ### What the searches find -/

variable {raw before after text head rest : List Char}

/-- The opening tag the search for the signature looks for. -/
def signatureOpening (raw : List Char) : List Char :=
  if contains raw "<ds:Signature" then "<ds:Signature".toList else "<Signature".toList

/-- The name a signature element is searched to the end by. -/
def nameIn (head : List Char) : List Char := (head.takeWhile fun c => !isNameEnd c).dropWhile (· == '<')

/-- A text is that of a signature element as the search takes it: up to the closing tag of its
name that comes first, behind its first closing bracket. -/
def SignatureText (opening text : List Char) : Prop :=
  ∃ head body, text = head ++ ('>' :: (body ++ closingTag (nameIn head))) ∧ opening <+: head ∧
    First ['>'] head ∧ First (closingTag (nameIn head)) body

/-- The tags the search for the `SignedInfo` looks for. -/
def signedInfoTags (raw : List Char) : List Char × List Char :=
  if contains raw "<ds:SignedInfo" then ("<ds:SignedInfo".toList, "</ds:SignedInfo>".toList)
  else ("<SignedInfo".toList, "</SignedInfo>".toList)

/-- A text is that of an element between these tags as the search takes it: up to the closing
tag that comes first. -/
def TaggedText (tags : List Char × List Char) (text : List Char) : Prop :=
  ∃ body, text = body ++ tags.2 ∧ tags.1 <+: text ∧ First tags.2 body

theorem find_signatureOpening :
    (find "<ds:Signature".toList raw).or (find "<Signature".toList raw) = find (signatureOpening raw) raw := by
  unfold signatureOpening contains
  cases h : find "<ds:Signature".toList raw with
  | none => rfl
  | some n => exact h.symm

theorem signatureOpening_ne_nil : signatureOpening raw ≠ [] := by
  unfold signatureOpening
  split <;> decide

theorem not_mem_signatureOpening : '>' ∉ signatureOpening raw := by
  unfold signatureOpening
  split <;> decide

theorem closingTag_ne_nil {name : List Char} : closingTag name ≠ [] := List.cons_ne_nil _ _

theorem nameIn_append : nameIn (head ++ ('>' :: rest)) = nameIn head := by
  have hend : ('>' :: rest).takeWhile (fun c => !isNameEnd c) = [] := rfl
  rw [nameIn, nameIn, List.takeWhile_append, hend, List.append_nil]
  split_ifs with h
  · rw [List.Sublist.eq_of_length (List.takeWhile_sublist _) h]
  · rfl

theorem take_findIdx {k : ℕ} (h : text.findIdx? isNameEnd = some k) :
    (text.take k).dropWhile (· == '<') = nameIn text := by
  rw [List.findIdx?_eq_some_iff_findIdx_eq] at h
  rw [nameIn, List.takeWhile_eq_take_findIdx_not, ← h.2]
  simp

theorem prefix_of_prefix_append {opening : List Char} (h : opening <+: head ++ ('>' :: rest)) (hout : '>' ∉ opening) :
    opening <+: head := by
  obtain hpre | ⟨tail, rfl⟩ := List.prefix_or_prefix_of_prefix h (List.prefix_append head ('>' :: rest))
  · exact hpre
  · obtain _ | ⟨c, tail⟩ := tail
    · rw [List.append_nil]
    · rw [List.prefix_append_right_inj, List.cons_prefix_cons] at h
      rw [h.1] at hout
      simp at hout

/-- Where the body of an element begins, behind what stands before it and its opening tag. -/
theorem drop_head (before head rest : List Char) :
    (before ++ (head ++ (['>'] ++ rest))).drop (before.length + head.length + 1) = rest := by
  rw [Nat.add_assoc, ← List.drop_drop, List.drop_left, ← List.drop_drop, List.drop_left]
  rfl

theorem envelopedSpan_eq_ok {m n : ℕ} :
    envelopedSpan raw = .ok (m, n) ↔
      ∃ before text after, raw = before ++ (text ++ after) ∧ before.length = m ∧ (before ++ text).length = n ∧
        First (signatureOpening raw) before ∧ SignatureText (signatureOpening raw) text := by
  have hne := @signatureOpening_ne_nil raw
  have hout := @not_mem_signatureOpening raw
  simp only [envelopedSpan, find_signatureOpening, Fallible.bind_eq_ok, okOrElse_eq_ok]
  generalize signatureOpening raw = opening at *
  constructor
  · rintro ⟨openAt, hopen, nameLength, hname, bodyStart, hbody, closeAt, hclose, heq⟩
    obtain ⟨before, after, rfl, rfl, hbefore⟩ := exists_of_find hne hopen
    rw [List.drop_left] at hname hbody hclose heq
    obtain ⟨offset, hoffset, rfl⟩ := Option.map_eq_some_iff.mp hbody
    obtain ⟨head, rest, hhead, rfl, hfirst⟩ := exists_of_find (List.cons_ne_nil _ _) hoffset
    rw [take_findIdx hname, hhead, List.singleton_append, nameIn_append] at hclose heq
    rw [← List.singleton_append, drop_head] at hclose
    obtain ⟨body, after', rfl, rfl, hbody⟩ := exists_of_find closingTag_ne_nil hclose
    cases heq
    refine ⟨before, head ++ ('>' :: (body ++ closingTag (nameIn head))), after', ?_, rfl, ?_, hbefore,
      head, body, rfl, ?_, hfirst, hbody⟩
    · rw [hhead]
      simp
    · simp
      omega
    · exact prefix_of_prefix_append ⟨after, hhead⟩ hout
  · rintro ⟨before, text, after, rfl, rfl, rfl, hbefore, head, body, rfl, ⟨more, hmore⟩, hfirst, hbody⟩
    have hraw : before ++ (head ++ ('>' :: (body ++ closingTag (nameIn head))) ++ after) =
        before ++ (head ++ (['>'] ++ (body ++ (closingTag (nameIn head) ++ after)))) := by simp
    rw [hraw]
    obtain ⟨k, hk⟩ : ∃ k, (head ++ (['>'] ++ (body ++ (closingTag (nameIn head) ++ after)))).findIdx? isNameEnd =
        some k := by
      rw [← Option.ne_none_iff_exists']
      intro hnone
      have hend := List.findIdx?_eq_none_iff.mp hnone '>' (by simp)
      cases hend
    have hname := take_findIdx hk
    rw [List.singleton_append, nameIn_append] at hname
    refine ⟨before.length, ?_, k, ?_, before.length + head.length + 1, ?_, body.length, ?_, ?_⟩
    · rw [← hmore, List.append_assoc]
      exact find_append hne hbefore
    · rw [List.drop_left]
      exact hk
    · rw [List.drop_left, find_append (List.cons_ne_nil _ _) hfirst]
      rfl
    · rw [List.drop_left, List.singleton_append, hname, ← List.singleton_append, drop_head]
      exact find_append closingTag_ne_nil hbody
    · rw [List.drop_left, List.singleton_append, hname]
      simp [pure, Except.pure]
      omega

theorem envelopedBytes_eq
    (h : envelopedSpan (before ++ (text ++ after)) = .ok (before.length, (before ++ text).length)) :
    envelopedBytes (before ++ (text ++ after)) = .ok (utf8 (before ++ after)) := by
  have htake : (before ++ (text ++ after)).take before.length = before := List.take_left
  have hdrop : (before ++ (text ++ after)).drop (before ++ text).length = after := by
    rw [← List.append_assoc, List.drop_left]
  refine Fallible.bind_eq_ok.mpr ⟨_, h, ?_⟩
  simp only [htake, hdrop]
  rfl

theorem signedInfoTags_ne_nil : (signedInfoTags raw).1 ≠ [] ∧ (signedInfoTags raw).2 ≠ [] := by
  unfold signedInfoTags
  split <;> decide

theorem length_signedInfoTags : (signedInfoTags raw).1.length ≤ (signedInfoTags raw).2.length := by
  unfold signedInfoTags
  split <;> decide

theorem find_signedInfoTags :
    (match find "<ds:SignedInfo".toList raw with
    | some start => some (start, "</ds:SignedInfo>".toList)
    | none => (find "<SignedInfo".toList raw).map fun start => (start, "</SignedInfo>".toList)) =
      (find (signedInfoTags raw).1 raw).map fun start => (start, (signedInfoTags raw).2) := by
  unfold signedInfoTags contains
  cases h : find "<ds:SignedInfo".toList raw with
  | none => rfl
  | some start =>
    simp only [Option.isSome_some, if_true]
    rw [h]
    rfl

theorem signedInfoText_eq_some :
    signedInfoText raw = some text ↔
      ∃ before after, raw = before ++ (text ++ after) ∧ First (signedInfoTags raw).1 before ∧
        TaggedText (signedInfoTags raw) text := by
  obtain ⟨hopen, hclose⟩ := @signedInfoTags_ne_nil raw
  have hlength := @length_signedInfoTags raw
  simp only [signedInfoText, find_signedInfoTags, Option.bind_eq_some_iff, Option.map_eq_some_iff]
  generalize signedInfoTags raw = tags at *
  constructor
  · rintro ⟨_, ⟨start, hstart, rfl⟩, stop, hstop, rfl⟩
    obtain ⟨before, after, rfl, rfl, hbefore⟩ := exists_of_find hopen hstart
    rw [List.drop_left] at hstop ⊢
    obtain ⟨body, after', hbody, rfl, hfirst⟩ := exists_of_find hclose hstop
    have htake : (tags.1 ++ after).take (body.length + tags.2.length) = body ++ tags.2 := by
      rw [hbody, ← List.append_assoc, List.take_left' List.length_append]
    rw [htake]
    refine ⟨before, after', by rw [hbody, List.append_assoc], hbefore, body, rfl, ?_, hfirst⟩
    -- Both are what the text goes on with, and the closing tag alone is as long as the opening one.
    refine List.prefix_of_prefix_length_le (List.prefix_append _ after) ⟨after', by rw [hbody, List.append_assoc]⟩ ?_
    rw [List.length_append]
    exact hlength.trans (Nat.le_add_left _ _)
  · rintro ⟨before, after, rfl, hbefore, body, rfl, ⟨more, hmore⟩, hfirst⟩
    refine ⟨_, ⟨before.length, ?_, rfl⟩, body.length, ?_, ?_⟩
    · rw [← hmore, List.append_assoc]
      exact find_append hopen hbefore
    · rw [List.drop_left, List.append_assoc]
      exact find_append hclose hfirst
    · rw [List.drop_left, List.take_left' List.length_append]

/-! ### Where a child stands -/

/-- What stands before and after the first child of this local name, in the text of a document. -/
def Document.around (d : Document) (name : String) : Option (List Char × List Char) :=
  match d.root with
  | .element tag children close =>
    match children.dropWhile (!isNamed name ·) with
    | [] => none
    | _ :: later =>
      let earlier := children.takeWhile (!isNamed name ·)
      some (d.before ++ '<' :: (tag ++ '>' :: Markup.texts earlier),
        Markup.texts later ++ (Markup.closeOpen ++ (close ++ '>' :: d.after)))
  | _ => none

/-- The text is what stands before a child, the child, and what stands after it. -/
theorem exists_around {d : Document} {name : String} {child : Markup} (h : findChild d.root name = some child) :
    ∃ before after, d.around name = some (before, after) ∧ d.text = before ++ (child.text ++ after) := by
  obtain ⟨start, root, stop⟩ := d
  cases root with
  | element tag children close =>
    rw [findChild, childrenOf, List.find?_eq_some_iff_append] at h
    obtain ⟨hnamed, earlier, later, rfl, hearlier⟩ := h
    have htake : (earlier ++ child :: later).takeWhile (!isNamed name ·) = earlier := by
      rw [List.takeWhile_append_of_pos hearlier, List.takeWhile_cons_of_neg (by simp [hnamed]), List.append_nil]
    have hdrop : (earlier ++ child :: later).dropWhile (!isNamed name ·) = child :: later := by
      rw [List.dropWhile_append_of_pos hearlier, List.dropWhile_cons_of_neg (by simp [hnamed])]
    refine ⟨start ++ '<' :: (tag ++ '>' :: Markup.texts earlier),
      Markup.texts later ++ (Markup.closeOpen ++ (close ++ '>' :: stop)), ?_, ?_⟩
    · simp only [Document.around, htake, hdrop]
    · simp [Document.text, Markup.text, Markup.texts, Markup.texts_append]
  | _ => cases h

theorem wellFormed_of_findChild {m child : Markup} {name : String} (hm : m.WellFormed)
    (h : findChild m name = some child) : child.WellFormed := by
  cases m with
  | element tag children close => exact hm.2.2.2.2.of_mem (List.mem_of_find?_eq_some h)
  | _ => cases h

/-! ### What is accepted -/

/-- What holds of a signature that is accepted. -/
structure Verified (platform : Platform) (block : SignatureBlock) (raw : List Char) (element : Markup)
    (config : SamlConfig) : Prop where
  /-- The reference is to the assertion. -/
  reference : ∃ reference, signedInfoReference platform block.node = some reference ∧
    (reference = [] ∨ assertionId platform element = some (trimHashes reference))
  /-- The declared digest is that of the bytes without the signature. -/
  digest : ∃ enveloped, envelopedBytes raw = .ok enveloped ∧
    signedInfoDigest platform block.node = some (digestFor platform block.algorithm enveloped)
  /-- The signature is one of the bytes found as the `SignedInfo`. -/
  signature : ∃ signed signature key, signedInfoBytes raw = some signed ∧
    platform.decodeBase64 block.signature = some signature ∧
    certificateKey platform config.certificatePem = .ok key ∧
    platform.rsaVerify key (paddingFor block.algorithm) (digestFor platform block.algorithm signed) signature = true

variable {platform : Platform} {block : SignatureBlock} {element : Markup} {config : SamlConfig}

theorem verifySignature_eq_ok :
    verifySignature platform block raw element config = .ok () ↔ Verified platform block raw element config := by
  simp only [verifySignature, Fallible.bind_eq_ok, okOrElse_eq_ok, ensure_eq_ok]
  constructor
  · rintro ⟨signature, hsignature, key, hkey, reference, hreference, _, hcovers, declared, hdeclared, enveloped,
      henveloped, _, rfl, signed, hsigned, hverify⟩
    exact ⟨⟨reference, hreference, hcovers⟩, ⟨enveloped, henveloped, hdeclared⟩,
      ⟨signed, signature, key, hsigned, hsignature, hkey, hverify⟩⟩
  · rintro ⟨⟨reference, hreference, hcovers⟩, ⟨enveloped, henveloped, hdeclared⟩,
      ⟨signed, signature, key, hsigned, hsignature, hkey, hverify⟩⟩
    exact ⟨signature, hsignature, key, hkey, reference, hreference, (), hcovers, _, hdeclared, enveloped,
      henveloped, (), rfl, signed, hsigned, hverify⟩

end Omnion.Identity.Saml
