import Mathlib.Data.List.Forall2
import Omnion.Core.JsonText
import Omnion.Core.Text
import Omnion.Library.Fallible
import Omnion.Library.Words

/-!
# The header policy

`crates/security/src/headers.rs`: how a policy is validated, and the header lines a response
carries under it.

## The model

What passed `new` is a subtype, so a policy carries what was checked of it.

## What is proved

* `new_safe_iff` — the lines of an accepted policy have no control characters, and its
  Content-Security-Policy and Permissions-Policy read back as its directives and permissions, just
  when no source has a semicolon or a control character and no permission a comma or a control
  character.
* `two_scripts` — a source with a semicolon adds a directive.

## Honest scope

A Content-Security-Policy is cut at semicolons, then at white space, a Permissions-Policy at commas.
-/

namespace Omnion.Security

/-- `MAX_HEADER_ROWS`. -/
def maxHeaderRows : ℕ := 40

/-- `MAX_HEADER_NAME`. -/
def maxHeaderName : ℕ := 64

/-- `MAX_HEADER_VALUE_LENGTH`. -/
def maxHeaderValueLength : ℕ := 2048

/-- Whether the CSP is enforced or only reported. -/
inductive CspMode where
  /-- Violations are recorded, nothing is blocked. -/
  | reportOnly
  | enforce
  deriving DecidableEq

/-- One directive of a policy. -/
structure CspDirective where
  directive : String
  values : List String

/-- How HSTS is configured. -/
structure HstsPolicy where
  /-- `none` means the header is not sent. -/
  maxAgeSeconds : Option ℤ
  /-- `includeSubDomains`. -/
  includeSubdomains : Bool
  /-- `preload`. -/
  preload : Bool

structure HeaderLine where
  name : String
  /-- Its value, or `none` when the header is not sent at all. -/
  value : Option String

/-- Everything the platform says about itself in response headers. -/
structure HeaderPolicy where
  cspMode : CspMode
  /-- The directives, in render order. -/
  csp : List CspDirective
  hsts : HstsPolicy
  /-- Send `X-Content-Type-Options: nosniff`. -/
  contentTypeOptions : Bool
  /-- Referrer-Policy value; `none` sends nothing. -/
  referrerPolicy : Option String
  /-- Permissions-Policy directives, as name=value pairs. -/
  permissionsPolicy : List String

/-- `REFERRER_POLICIES`. -/
def referrerPolicies : List String :=
  ["no-referrer", "no-referrer-when-downgrade", "origin", "origin-when-cross-origin", "same-origin",
    "strict-origin", "strict-origin-when-cross-origin", "unsafe-url"]

namespace CspDirective

/-- A character of a directive name. -/
def isNameChar (c : Char) : Bool := Text.isAsciiLowercase c || Text.isAsciiDigit c || c = '-'

/-- What `new` checks. -/
structure WellFormed (row : CspDirective) : Prop where
  named : row.directive ≠ ""
  name : ∀ c ∈ row.directive.toList, isNameChar c = true
  filled : ∀ value ∈ row.values, value ≠ ""
  /-- No source contains white space. -/
  single : ∀ value ∈ row.values, ∀ c ∈ value.toList, Text.isWhitespace c = false

/-- The sources, trimmed, without the empty ones. -/
def trimmed (values : List String) : List String := (values.map Text.trim).filter fun value => value ≠ ""

/-- Why a source is refused. -/
def refusal (directive value : String) : Option String :=
  if value.utf8ByteSize > maxHeaderValueLength then
    some s!"a source in \"{directive}\" is longer than {maxHeaderValueLength} characters"
  else if value.toList.any Text.isWhitespace then
    some s!"the source \"{value}\" in \"{directive}\" contains a space — list each source separately"
  else none

theorem single_of_refusal {directive value : String} (h : refusal directive value = none) :
    ∀ c ∈ value.toList, Text.isWhitespace c = false := by
  rw [refusal] at h
  split_ifs at h with _ hspace
  simpa using hspace

/-- Build a directive. -/
def new (directive : String) (values : List String) : Except String { row : CspDirective // row.WellFormed } :=
  let directive := Text.toLowercase (Text.trim directive)
  if hnamed : directive = "" then .error "a CSP directive name cannot be empty"
  else if directive.utf8ByteSize > maxHeaderName then
    .error s!"the directive name \"{directive}\" is longer than {maxHeaderName} characters"
  else if hname : directive.toList.all isNameChar then
    match hvalues : (trimmed values).findSome? (refusal directive) with
    | some message => .error message
    | none => .ok {
        val := { directive, values := trimmed values }
        property := {
          named := hnamed
          name := List.all_eq_true.mp hname
          filled := fun _ hvalue => by simpa using (List.mem_filter.mp hvalue).2
          single := fun value hvalue =>
            single_of_refusal (List.findSome?_eq_none_iff.mp hvalues value hvalue) } }
  else .error s!"\"{directive}\" is not a CSP directive name — use letters, digits and dashes"

/-- How this directive reads inside a header line. -/
def render (row : CspDirective) : String :=
  if row.values.isEmpty then row.directive else row.directive ++ " " ++ " ".intercalate row.values

end CspDirective

namespace HstsPolicy

/-- The header line, or `none` when HSTS is off. -/
def render (hsts : HstsPolicy) : Option String :=
  hsts.maxAgeSeconds.map fun maxAge =>
    s!"max-age={maxAge}" ++ (if hsts.includeSubdomains then "; includeSubDomains" else "") ++
      (if hsts.preload then "; preload" else "")

/-- The largest `max-age` accepted. -/
def maxMaxAge : ℤ := 86400 * 730

/-- Check how HSTS is configured. -/
def check (hsts : HstsPolicy) : Except String PUnit :=
  match hsts.maxAgeSeconds.filter fun maxAge => ¬ (0 ≤ maxAge ∧ maxAge ≤ maxMaxAge) with
  | some maxAge => .error s!"\"{maxAge}\" is not a max-age — use seconds between 0 and {maxMaxAge}"
  | none =>
    if hsts.preload && !hsts.includeSubdomains then
      .error "the preload list requires includeSubDomains — either add it or turn preload off"
    else .ok ⟨⟩

end HstsPolicy

namespace HeaderPolicy

/-- Directives that are well formed, with different names that were not seen before. -/
structure Listed (seen : List String) (csp : List CspDirective) : Prop where
  wellFormed : ∀ row ∈ csp, row.WellFormed
  names : (csp.map CspDirective.directive).Nodup
  unseen : ∀ row ∈ csp, row.directive ∉ seen

theorem Listed.cons {seen : List String} {row : CspDirective} {csp : List CspDirective} (hrow : row.WellFormed)
    (hseen : row.directive ∉ seen) (h : Listed (row.directive :: seen) csp) : Listed seen (row :: csp) where
  wellFormed := List.forall_mem_cons.mpr ⟨hrow, h.wellFormed⟩
  names := by
    rw [List.map_cons, List.nodup_cons]
    refine ⟨fun hmem => ?_, h.names⟩
    obtain ⟨other, hother, hname⟩ := List.mem_map.mp hmem
    exact h.unseen other hother (hname ▸ List.mem_cons_self)
  unseen := List.forall_mem_cons.mpr ⟨hseen, fun other hother hmem =>
    h.unseen other hother (List.mem_cons_of_mem row.directive hmem)⟩

/-- Every directive through its own constructor, none twice. -/
def normalise (seen : List String) : List CspDirective → Except String { csp : List CspDirective // Listed seen csp }
  | [] => .ok ⟨[], nofun, List.nodup_nil, nofun⟩
  | row :: rest => do
    let ⟨row, hrow⟩ ← CspDirective.new row.directive row.values
    if hseen : row.directive ∈ seen then
      .error s!"the directive \"{row.directive}\" appears twice — a policy may list each directive once"
    else
      let ⟨rest, hrest⟩ ← normalise (row.directive :: seen) rest
      pure ⟨row :: rest, hrest.cons hrow hseen⟩

/-- The referrer policy, when there is one. -/
def readReferrer : Option String → Except String { value : Option String // ∀ name ∈ value, name ∈ referrerPolicies }
  | none => .ok ⟨none, nofun⟩
  | some raw =>
    let value := Text.toLowercase (Text.trim raw)
    if value = "" then .ok ⟨none, nofun⟩
    else if hvalue : value ∈ referrerPolicies then .ok ⟨some value, fun _ hname => Option.some.inj hname ▸ hvalue⟩
    else .error (s!"\"{value}\" is not a Referrer-Policy browsers implement — choose one of: " ++
      ", ".intercalate referrerPolicies)

/-- The name and the allowlist of an entry, each trimmed. -/
def entryParts (entry : String) : Option (String × String) :=
  (Text.splitOnce ['='] (Text.trim entry).toList).map fun (name, allowlist) =>
    (Text.trim (String.ofList name), Text.trim (String.ofList allowlist))

/-- One entry of the permissions policy; an empty one is skipped. -/
def readPermission (entry : String) : Except String (Option String) :=
  let trimmed := Text.trim entry
  if trimmed = "" then .ok none
  else if trimmed.utf8ByteSize > maxHeaderValueLength then
    .error s!"the permissions policy entry \"{trimmed}\" is longer than {maxHeaderValueLength} characters"
  else
    match entryParts entry with
    | none => .error s!"\"{trimmed}\" is not a permissions policy entry — write it as feature=(self) or feature=()"
    | some (name, allowlist) =>
      if name = "" then .error "a permissions policy entry needs a feature name before the ="
      else .ok (some s!"{name}={allowlist}")

/-- The permissions policy. -/
def readPermissions : List String → Except String (List String)
  | [] => .ok []
  | entry :: rest => do
    let permission ← readPermission entry
    let rest ← readPermissions rest
    pure (permission.toList ++ rest)

/-- What `new` checks of the parts that are rendered. -/
structure Valid (policy : HeaderPolicy) : Prop where
  listed : Listed [] policy.csp
  /-- There is one that the others are measured against. -/
  default : "default-src" ∈ policy.csp.map CspDirective.directive
  /-- The referrer policy is one browsers implement. -/
  referrer : ∀ name ∈ policy.referrerPolicy, name ∈ referrerPolicies

/-- Validate a policy and return it. -/
def new (cspMode : CspMode) (csp : List CspDirective) (hsts : HstsPolicy) (contentTypeOptions : Bool)
    (referrerPolicy : Option String) (permissionsPolicy : List String) :
    Except String { policy : HeaderPolicy // policy.Valid } :=
  if csp.length > maxHeaderRows then
    .error s!"a policy may hold at most {maxHeaderRows} CSP directives, this one has {csp.length}"
  else do
    let ⟨csp, hcsp⟩ ← normalise [] csp
    let names := csp.map CspDirective.directive
    if hdefault : "default-src" ∈ names then
      if "script-src" ∈ names ∨ "script-src-elem" ∈ names then
        hsts.check
        let ⟨referrerPolicy, hreferrer⟩ ← readReferrer referrerPolicy
        let permissionsPolicy ← readPermissions permissionsPolicy
        pure {
          val := { cspMode, csp, hsts, contentTypeOptions, referrerPolicy, permissionsPolicy }
          property := { listed := hcsp, default := hdefault, referrer := hreferrer } }
      else .error "a policy needs \"script-src\" or \"script-src-elem\" — without one, scripts are unconstrained"
    else .error ("a policy needs a \"default-src\" directive — it is what every other source list is measured " ++
      "against")

/-- The CSP string itself. -/
def cspValue (policy : HeaderPolicy) : String := "; ".intercalate (policy.csp.map CspDirective.render)

/-- The exact header lines a response carries under this policy. -/
def render (policy : HeaderPolicy) : List HeaderLine :=
  [{ name := if policy.cspMode = .enforce then "Content-Security-Policy" else "Content-Security-Policy-Report-Only"
     value := some policy.cspValue },
    { name := "Strict-Transport-Security", value := policy.hsts.render },
    { name := "X-Content-Type-Options", value := if policy.contentTypeOptions then some "nosniff" else none },
    { name := "Referrer-Policy", value := policy.referrerPolicy },
    { name := "Permissions-Policy", value := some (", ".intercalate policy.permissionsPolicy) }]

end HeaderPolicy

/-! ### How a header is read -/

/-- `char::is_control`. -/
def isControl (c : Char) : Bool := c.toNat < 0x20 || 0x7f ≤ c.toNat && c.toNat < 0xa0

/-- Between two directives. -/
def isSemicolon (c : Char) : Bool := c = ';'

/-- Between two permissions. -/
def isComma (c : Char) : Bool := c = ','

theorem forall_of_all {l : List Char} {p : Char → Bool} (h : l.all (fun c => !p c) = true) : ∀ c ∈ l, p c = false := by
  simpa using h

/-- A directive: its name and its sources. -/
def parseDirective (text : List Char) : Option (String × List String) :=
  match Words.words Text.isWhitespace text with
  | [] => none
  | name :: sources => some (String.ofList name, sources.map String.ofList)

/-- A Content-Security-Policy: cut at semicolons, then at white space. -/
def parseCsp (value : String) : List (String × List String) :=
  (value.toList.splitOnP isSemicolon).filterMap parseDirective

/-- The members of a Permissions-Policy, without the space around them. -/
def parsePermissions (value : String) : List String :=
  ((value.toList.splitOnP isComma).map fun part => Text.trim (String.ofList part)).filter fun part => part ≠ ""

namespace CspDirective

/-- The words a directive is rendered as. -/
def texts (row : CspDirective) : List (List Char) := row.directive.toList :: row.values.map String.toList

theorem space : " ".toList = [' '] := rfl

theorem toList_render (row : CspDirective) : row.render.toList = [' '].intercalate row.texts := by
  rw [render, texts]
  cases hvalues : row.values with
  | nil => simp
  | cons value values =>
    rw [if_neg (by simp), String.toList_append, String.toList_append, String.toList_intercalate, space]
    simp

theorem toNat_of_isNameChar {c : Char} (h : isNameChar c = true) :
    (97 ≤ c.toNat ∧ c.toNat ≤ 122) ∨ (48 ≤ c.toNat ∧ c.toNat ≤ 57) ∨ c.toNat = 45 := by
  simp only [isNameChar, Text.isAsciiLowercase, Text.isAsciiDigit, Bool.or_eq_true, Bool.and_eq_true,
    decide_eq_true_eq, Char.le_def, UInt32.le_iff_toNat_le] at h
  rcases h with (h | h) | rfl
  · exact .inl h
  · exact .inr (.inl h)
  · exact .inr (.inr rfl)

theorem isWhitespace_of_isNameChar {c : Char} (h : isNameChar c = true) : Text.isWhitespace c = false := by
  have hrange := toNat_of_isNameChar h
  simp only [Text.isWhitespace, Bool.or_eq_false_iff, Bool.and_eq_false_iff, decide_eq_false_iff_not,
    beq_eq_false_iff_ne]
  omega

theorem isSemicolon_of_isNameChar {c : Char} (h : isNameChar c = true) : isSemicolon c = false := by
  refine decide_eq_false fun hsemicolon => ?_
  rw [hsemicolon] at h
  exact absurd h (by decide)

theorem isControl_of_isNameChar {c : Char} (h : isNameChar c = true) : isControl c = false := by
  have hrange := toNat_of_isNameChar h
  simp only [isControl, Bool.or_eq_false_iff, Bool.and_eq_false_iff, decide_eq_false_iff_not]
  omega

section Read

variable {row : CspDirective} (h : row.WellFormed)

include h

theorem WellFormed.texts : ∀ word ∈ row.texts, word ≠ [] ∧ ∀ c ∈ word, Text.isWhitespace c = false := by
  refine List.forall_mem_cons.mpr ⟨⟨?_, fun c hc => isWhitespace_of_isNameChar (h.name c hc)⟩, ?_⟩
  · rw [Ne, String.toList_eq_nil_iff]
    exact h.named
  · intro word hword
    obtain ⟨value, hvalue, rfl⟩ := List.mem_map.mp hword
    refine ⟨?_, h.single value hvalue⟩
    rw [Ne, String.toList_eq_nil_iff]
    exact h.filled value hvalue

theorem WellFormed.words_render : Words.words Text.isWhitespace row.render.toList = row.texts := by
  rw [toList_render]
  exact Words.words_intercalate rfl h.texts

/-- **A directive is read back.** -/
theorem WellFormed.parseDirective : parseDirective row.render.toList = some (row.directive, row.values) := by
  rw [Security.parseDirective, h.words_render, CspDirective.texts]
  simp

theorem WellFormed.parseDirective_space :
    Security.parseDirective ([' '] ++ row.render.toList) = some (row.directive, row.values) := by
  rw [← h.parseDirective, Security.parseDirective, Security.parseDirective, List.singleton_append, Words.words_cons rfl]

theorem WellFormed.semicolonFree : (∀ c ∈ row.render.toList, isSemicolon c = false) ↔
    ∀ value ∈ row.values, ∀ c ∈ value.toList, isSemicolon c = false := by
  rw [toList_render, Words.forall_mem_intercalate (forall_of_all rfl), CspDirective.texts, List.forall_mem_cons,
    List.forall_mem_map]
  exact and_iff_right fun c hc => isSemicolon_of_isNameChar (h.name c hc)

theorem WellFormed.controlFree : (∀ c ∈ row.render.toList, isControl c = false) ↔
    ∀ value ∈ row.values, ∀ c ∈ value.toList, isControl c = false := by
  rw [toList_render, Words.forall_mem_intercalate (forall_of_all rfl), CspDirective.texts, List.forall_mem_cons,
    List.forall_mem_map]
  exact and_iff_right fun c hc => isControl_of_isNameChar (h.name c hc)

end Read

end CspDirective

/-! ### The Content-Security-Policy -/

theorem toList_cspValue (policy : HeaderPolicy) :
    policy.cspValue.toList = [';', ' '].intercalate (policy.csp.map fun row => row.render.toList) := by
  have hsep : "; ".toList = [';', ' '] := rfl
  rw [HeaderPolicy.cspValue, String.toList_intercalate, hsep, List.map_map]
  rfl

/-- **Directives without semicolons are read back.** -/
theorem parseCsp_of_semicolonFree {policy : HeaderPolicy} (hpolicy : policy.Valid)
    (h : ∀ row ∈ policy.csp, ∀ value ∈ row.values, ∀ c ∈ value.toList, isSemicolon c = false) :
    parseCsp policy.cspValue = policy.csp.map fun row => (row.directive, row.values) := by
  have hwell := hpolicy.listed.wellFormed
  rw [parseCsp, toList_cspValue]
  cases hcsp : policy.csp with
  | nil =>
    have hdefault := hpolicy.default
    rw [hcsp] at hdefault
    cases hdefault
  | cons first others =>
    rw [hcsp] at h hwell
    have hparts : ∀ part ∈ first.render.toList :: others.map fun row => row.render.toList,
        ∀ c ∈ part, isSemicolon c = false := by
      intro part hpart
      rw [← List.map_cons (f := fun row : CspDirective => row.render.toList)] at hpart
      obtain ⟨row, hrow, rfl⟩ := List.mem_map.mp hpart
      exact (hwell row hrow).semicolonFree.mpr (h row hrow)
    have hothers : ((others.map fun row => row.render.toList).map ([' '] ++ ·)).filterMap parseDirective =
        others.map fun row => (row.directive, row.values) := by
      rw [List.map_map, List.filterMap_map, ← List.filterMap_eq_map]
      exact List.filterMap_congr fun row hrow => (hwell row (List.mem_cons_of_mem first hrow)).parseDirective_space
    rw [List.map_cons, Words.splitOnP_intercalate rfl (forall_of_all rfl) hparts,
      List.filterMap_cons_some (hwell first List.mem_cons_self).parseDirective, hothers]
    rfl

theorem semicolonFree_of_parseCsp {policy : HeaderPolicy}
    (h : parseCsp policy.cspValue = policy.csp.map fun row => (row.directive, row.values)) :
    ∀ row ∈ policy.csp, ∀ value ∈ row.values, ∀ c ∈ value.toList, isSemicolon c = false := by
  intro row hrow value hvalue c hc
  have hread : (row.directive, row.values) ∈ parseCsp policy.cspValue := h ▸ List.mem_map_of_mem hrow
  obtain ⟨part, hpart, hparse⟩ := List.mem_filterMap.mp hread
  rw [parseDirective] at hparse
  split at hparse
  · cases hparse
  · next name sources hwords =>
    obtain ⟨-, hvalues⟩ := Prod.mk.inj (Option.some.inj hparse)
    rw [← hvalues] at hvalue
    obtain ⟨source, hsource, rfl⟩ := List.mem_map.mp hvalue
    rw [String.toList_ofList] at hc
    have hword : source ∈ Words.words Text.isWhitespace part := hwords ▸ List.mem_cons_of_mem name hsource
    exact (Words.mem_splitOnP hpart (Words.mem_words hword hc).1).2

/-! ### What `new` builds -/

theorem CspDirective.values_of_new {directive : String} {values : List String}
    {row : { row : CspDirective // row.WellFormed }} (h : CspDirective.new directive values = .ok row) :
    row.val.values = trimmed values := by
  rw [CspDirective.new] at h
  split_ifs at h
  split at h
  · cases h
  · rw [← Except.ok.inj h]

namespace HeaderPolicy

theorem values_of_normalise {seen : List String} {rows : List CspDirective}
    {csp : { csp : List CspDirective // Listed seen csp }} (h : normalise seen rows = .ok csp) :
    csp.val.map CspDirective.values = rows.map fun row => CspDirective.trimmed row.values := by
  induction rows generalizing seen with
  | nil =>
    rw [normalise] at h
    rw [← Except.ok.inj h]
    rfl
  | cons row rows ih =>
    rw [normalise] at h
    obtain ⟨⟨built, hbuilt⟩, hrow, h⟩ := Fallible.bind_eq_ok.mp h
    dsimp only at h
    split_ifs at h with hseen
    obtain ⟨rest, hrest, h⟩ := Fallible.bind_eq_ok.mp h
    rw [← Except.ok.inj h, List.map_cons, List.map_cons, CspDirective.values_of_new hrow, ih hrest]

/-- How an entry is written into the header. -/
def entryText (entry : String) : Option String := (entryParts entry).map fun (name, allowlist) => s!"{name}={allowlist}"

theorem entryText_of_readPermission {entry : String} {permission : Option String}
    (h : readPermission entry = .ok permission) :
    permission = entryText entry ∧ ∀ parts ∈ entryParts entry, parts.1 ≠ "" := by
  rw [readPermission] at h
  split_ifs at h with hempty
  · have hparts : entryParts entry = none := by
      rw [entryParts, hempty]
      rfl
    rw [entryText, hparts, ← Except.ok.inj h]
    exact ⟨rfl, nofun⟩
  · split at h
    · cases h
    · next name allowlist hparts =>
      split_ifs at h with hname
      rw [entryText, hparts, ← Except.ok.inj h]
      refine ⟨rfl, fun parts hmem => ?_⟩
      rw [← Option.some.inj hmem]
      exact hname

theorem entryText_of_readPermissions {entries texts : List String} (h : readPermissions entries = .ok texts) :
    texts = entries.filterMap entryText ∧ ∀ entry ∈ entries, ∀ parts ∈ entryParts entry, parts.1 ≠ "" := by
  induction entries generalizing texts with
  | nil =>
    rw [← Except.ok.inj h]
    exact ⟨rfl, nofun⟩
  | cons entry entries ih =>
    rw [readPermissions] at h
    obtain ⟨permission, hpermission, h⟩ := Fallible.bind_eq_ok.mp h
    obtain ⟨rest, hrest, h⟩ := Fallible.bind_eq_ok.mp h
    obtain ⟨rfl, hname⟩ := entryText_of_readPermission hpermission
    obtain ⟨rfl, hnames⟩ := ih hrest
    refine ⟨?_, List.forall_mem_cons.mpr ⟨hname, hnames⟩⟩
    rw [← Except.ok.inj h, List.filterMap_cons]
    cases entryText entry <;> rfl

/-- What an accepted policy was built from. -/
structure BuiltFrom (rows : List CspDirective) (entries : List String) (policy : HeaderPolicy) : Prop where
  values : policy.csp.map CspDirective.values = rows.map fun row => CspDirective.trimmed row.values
  permissions : policy.permissionsPolicy = entries.filterMap entryText
  named : ∀ entry ∈ entries, ∀ parts ∈ entryParts entry, parts.1 ≠ ""

theorem builtFrom_of_new {mode : CspMode} {rows : List CspDirective} {hsts : HstsPolicy} {options : Bool}
    {referrer : Option String} {entries : List String} {policy : { policy : HeaderPolicy // policy.Valid }}
    (h : new mode rows hsts options referrer entries = .ok policy) : BuiltFrom rows entries policy := by
  rw [new] at h
  split_ifs at h
  obtain ⟨⟨csp, hlisted⟩, hcsp, h⟩ := Fallible.bind_eq_ok.mp h
  dsimp only at h
  split_ifs at h
  obtain ⟨_, -, h⟩ := Fallible.bind_eq_ok.mp h
  obtain ⟨value, -, h⟩ := Fallible.bind_eq_ok.mp h
  obtain ⟨texts, hpermissions, h⟩ := Fallible.bind_eq_ok.mp h
  obtain ⟨htexts, hnamed⟩ := entryText_of_readPermissions hpermissions
  rw [← Except.ok.inj h]
  exact ⟨values_of_normalise hcsp, htexts, hnamed⟩

end HeaderPolicy

/-! ### Control characters -/

abbrev NoControl (text : String) : Prop := ∀ c ∈ text.toList, isControl c = false

theorem noControl_append {s t : String} : NoControl (s ++ t) ↔ NoControl s ∧ NoControl t := by
  rw [NoControl, String.toList_append, List.forall_mem_append]

theorem noControl_intercalate {sep : String} {parts : List String} (hsep : NoControl sep) :
    NoControl (sep.intercalate parts) ↔ ∀ part ∈ parts, NoControl part := by
  rw [NoControl, String.toList_intercalate, Words.forall_mem_intercalate hsep, List.forall_mem_map]

theorem noControl_int (n : ℤ) : NoControl (toString n) := by
  intro c hc
  rw [JsonText.toList_toString] at hc
  rcases JsonText.isNumeral_int n c hc with hdigit | rfl
  · simp only [Char.isDigit, Bool.and_eq_true, decide_eq_true_eq, UInt32.le_iff_toNat_le] at hdigit
    have hrange : 48 ≤ c.toNat ∧ c.toNat ≤ 57 := hdigit
    simp only [isControl, Bool.or_eq_false_iff, Bool.and_eq_false_iff, decide_eq_false_iff_not]
    omega
  · rfl

theorem noControl_hsts (hsts : HstsPolicy) : ∀ value ∈ hsts.render, NoControl value := by
  intro value hvalue
  obtain ⟨maxAge, -, rfl⟩ := Option.map_eq_some_iff.mp hvalue
  have htext : s!"max-age={maxAge}" = "max-age=" ++ toString maxAge := rfl
  rw [noControl_append, noControl_append, htext, noControl_append]
  refine ⟨⟨⟨forall_of_all (by decide), noControl_int maxAge⟩, ?_⟩, ?_⟩
  · split_ifs <;> exact forall_of_all (by decide)
  · split_ifs <;> exact forall_of_all (by decide)

theorem noControl_referrer : ∀ name ∈ referrerPolicies, NoControl name := by
  have hall : referrerPolicies.all (fun name => name.toList.all fun c => !isControl c) = true := by decide
  exact fun name hname => forall_of_all (List.all_eq_true.mp hall name hname)

/-- **The lines have no control characters** just when no source and no permission has one. -/
theorem lines_iff {policy : HeaderPolicy} (h : policy.Valid) :
    (∀ line ∈ policy.render, ∀ value ∈ line.value, NoControl value) ↔
      (∀ row ∈ policy.csp, ∀ value ∈ row.values, NoControl value) ∧ ∀ text ∈ policy.permissionsPolicy,
        NoControl text := by
  have hcsp : NoControl policy.cspValue ↔ ∀ row ∈ policy.csp, ∀ value ∈ row.values, NoControl value := by
    rw [HeaderPolicy.cspValue, noControl_intercalate (forall_of_all (by decide)), List.forall_mem_map]
    exact forall₂_congr fun row hrow => (h.listed.wellFormed row hrow).controlFree
  have hpermissions : NoControl (", ".intercalate policy.permissionsPolicy) ↔
      ∀ text ∈ policy.permissionsPolicy, NoControl text := noControl_intercalate (forall_of_all (by decide))
  have hoptions : ∀ value ∈ (if policy.contentTypeOptions then some "nosniff" else none), NoControl value := by
    split_ifs
    · rintro _ ⟨⟩
      exact forall_of_all (by decide)
    · nofun
  have hreferrer : ∀ value ∈ policy.referrerPolicy, NoControl value :=
    fun value hvalue => noControl_referrer value (h.referrer value hvalue)
  rw [← hcsp, ← hpermissions, HeaderPolicy.render]
  simp only [List.forall_mem_cons, Option.mem_some_iff, forall_eq']
  exact ⟨fun hlines => ⟨hlines.1, hlines.2.2.2.2.1⟩,
    fun hlines => ⟨hlines.1, noControl_hsts policy.hsts, hoptions, hreferrer, hlines.2, nofun⟩⟩

/-! ### The Permissions-Policy -/

theorem toList_entry (name allowlist : String) :
    s!"{name}={allowlist}".toList = name.toList ++ '=' :: allowlist.toList := by
  have hequals : "=".toList = ['='] := rfl
  have htext : s!"{name}={allowlist}" = name ++ "=" ++ allowlist := rfl
  rw [htext, String.toList_append, String.toList_append, hequals, List.append_assoc]
  rfl

/-- A written entry is trimmed on both sides. -/
theorem trim_entry {name allowlist : String} (hname : Text.trim name = name) (hne : name ≠ "")
    (hallowlist : Text.trim allowlist = allowlist) : Text.trim s!"{name}={allowlist}" = s!"{name}={allowlist}" := by
  rw [← String.ofList_toList (s := name), Text.trim_eq_self_iff] at hname
  rw [← String.ofList_toList (s := allowlist), Text.trim_eq_self_iff] at hallowlist
  rw [← String.ofList_toList (s := s!"{name}={allowlist}"), toList_entry, Text.trim_eq_self_iff]
  constructor
  · obtain ⟨c, rest, hlist⟩ : ∃ c rest, name.toList = c :: rest :=
      List.exists_cons_of_ne_nil (by rwa [Ne, String.toList_eq_nil_iff])
    have hc : Text.isWhitespace c = false := by
      have hhead := List.dropWhile_eq_self_iff.mp hname.1
      rw [hlist] at hhead
      exact (Bool.not_eq_true _).mp (hhead (Nat.zero_lt_succ _))
    rw [hlist, List.cons_append, List.dropWhile_cons_of_neg (by simp [hc])]
  · rw [List.rdropWhile_eq_self_iff] at hallowlist ⊢
    intro hnil
    rw [List.getLast_append_of_ne_nil _ (List.cons_ne_nil _ _)]
    cases hlist : allowlist.toList with
    | nil => decide
    | cons c rest =>
      rw [List.getLast_cons (List.cons_ne_nil _ _)]
      simpa [hlist] using hallowlist.2

theorem trim_space (text : String) : Text.trim (String.ofList ([' '] ++ text.toList)) = Text.trim text := by
  rw [Text.trim, Text.trim, String.toList_ofList, List.singleton_append, List.dropWhile_cons_of_pos (by decide)]

/-- **Trimmed entries without commas are read back.** -/
theorem parsePermissions_of_commaFree {texts : List String}
    (htrimmed : ∀ text ∈ texts, Text.trim text = text ∧ text ≠ "")
    (h : ∀ text ∈ texts, ∀ c ∈ text.toList, isComma c = false) : parsePermissions (", ".intercalate texts) = texts := by
  have hsep : ", ".toList = [',', ' '] := rfl
  have hfilter : ∀ texts : List String, (∀ text ∈ texts, Text.trim text = text ∧ text ≠ "") →
      ((texts.map fun text => Text.trim text).filter fun text => text ≠ "") = texts := by
    intro texts htexts
    have hmap : texts.map (fun text => Text.trim text) = texts := by
      conv_rhs => rw [← List.map_id texts]
      exact List.map_congr_left fun text htext => (htexts text htext).1
    rw [hmap, List.filter_eq_self]
    exact fun text htext => by simpa using (htexts text htext).2
  rw [parsePermissions, String.toList_intercalate, hsep]
  cases texts with
  | nil => rfl
  | cons first others =>
    have hparts : ∀ part ∈ first.toList :: others.map String.toList, ∀ c ∈ part, isComma c = false := by
      rw [← List.map_cons, List.forall_mem_map]
      exact h
    rw [List.map_cons, Words.splitOnP_intercalate rfl (forall_of_all rfl) hparts, ← hfilter (first :: others) htrimmed]
    simp only [List.map_cons, List.map_map, Function.comp_def, trim_space, String.ofList_toList]

theorem commaFree_of_parsePermissions {texts : List String} (h : parsePermissions (", ".intercalate texts) = texts) :
    ∀ text ∈ texts, ∀ c ∈ text.toList, isComma c = false := by
  intro text htext c hc
  rw [← h, parsePermissions] at htext
  obtain ⟨part, hpart, rfl⟩ := List.mem_map.mp (List.mem_filter.mp htext).1
  rw [Text.trim, String.toList_ofList, String.toList_ofList] at hc
  have hin : c ∈ part := (List.dropWhile_suffix _).subset ((List.rdropWhile_prefix _ _).subset hc)
  exact (Words.mem_splitOnP hpart hin).2

/-! ### When a policy is safe -/

/-- Every line is a single one without control characters, and what the policy lists is read back
from its lines. -/
structure Safe (policy : HeaderPolicy) : Prop where
  lines : ∀ line ∈ policy.render, ∀ value ∈ line.value, NoControl value
  /-- The directives and their sources, in order. -/
  csp : parseCsp policy.cspValue = policy.csp.map fun row => (row.directive, row.values)
  /-- The permissions, in order. -/
  permissions : parsePermissions (", ".intercalate policy.permissionsPolicy) = policy.permissionsPolicy

/-- The texts given for sources and permissions have nothing that `new` should have refused. -/
structure Clean (rows : List CspDirective) (entries : List String) : Prop where
  semicolons : ∀ row ∈ rows, ∀ value ∈ row.values, ∀ c ∈ (Text.trim value).toList, isSemicolon c = false
  /-- No source has a control character. -/
  sources : ∀ row ∈ rows, ∀ value ∈ row.values, NoControl (Text.trim value)
  permissions : ∀ entry ∈ entries, ∀ parts ∈ HeaderPolicy.entryParts entry, NoControl parts.1 ∧ NoControl parts.2
  commas : ∀ entry ∈ entries, ∀ parts ∈ HeaderPolicy.entryParts entry,
    (∀ c ∈ parts.1.toList, isComma c = false) ∧ ∀ c ∈ parts.2.toList, isComma c = false

/-- `Clean`, tested character by character. -/
theorem clean_of_all {rows : List CspDirective} {entries : List String}
    (hrows : (rows.all fun row => row.values.all fun value =>
      (Text.trim value).toList.all fun c => !isSemicolon c && !isControl c) = true)
    (hentries : (entries.all fun entry => (HeaderPolicy.entryParts entry).all fun parts =>
      (parts.1.toList ++ parts.2.toList).all fun c => !isControl c && !isComma c) = true) : Clean rows entries := by
  simp only [List.all_eq_true, Bool.and_eq_true, Bool.not_eq_true', Option.all_eq_true,
    List.mem_append] at hrows hentries
  exact {
    semicolons := fun row hrow value hvalue c hc => (hrows row hrow value hvalue c hc).1
    sources := fun row hrow value hvalue c hc => (hrows row hrow value hvalue c hc).2
    permissions := fun entry hentry parts hparts =>
      ⟨fun c hc => (hentries entry hentry parts hparts c (.inl hc)).1,
        fun c hc => (hentries entry hentry parts hparts c (.inr hc)).1⟩
    commas := fun entry hentry parts hparts =>
      ⟨fun c hc => (hentries entry hentry parts hparts c (.inl hc)).2,
        fun c hc => (hentries entry hentry parts hparts c (.inr hc)).2⟩ }

section Accepted

variable {rows : List CspDirective} {entries : List String} {policy : HeaderPolicy}
variable (h : HeaderPolicy.BuiltFrom rows entries policy)

include h

/-- What holds of the empty text holds of the policy's sources when it does of those given. -/
theorem forall_sources_iff {P : String → Prop} (hempty : P "") :
    (∀ row ∈ policy.csp, ∀ value ∈ row.values, P value) ↔ ∀ row ∈ rows, ∀ value ∈ row.values, P (Text.trim value) := by
  have hvalues : (∀ row ∈ policy.csp, ∀ value ∈ row.values, P value) ↔
      ∀ values ∈ policy.csp.map CspDirective.values, ∀ value ∈ values, P value := by rw [List.forall_mem_map]
  rw [hvalues, h.values, List.forall_mem_map]
  refine forall₂_congr fun row _ => ?_
  constructor
  · intro hall value hvalue
    by_cases hnil : Text.trim value = ""
    · rwa [hnil]
    · exact hall _ (List.mem_filter.mpr ⟨List.mem_map_of_mem hvalue, by simpa using hnil⟩)
  · intro hall value hvalue
    obtain ⟨raw, hraw, rfl⟩ := List.mem_map.mp (List.mem_filter.mp hvalue).1
    exact hall raw hraw

theorem forall_permissions_iff {P : String → Prop} : (∀ text ∈ policy.permissionsPolicy, P text) ↔
    ∀ entry ∈ entries, ∀ parts ∈ HeaderPolicy.entryParts entry, P s!"{parts.1}={parts.2}" := by
  rw [h.permissions]
  constructor
  · intro hall entry hentry parts hparts
    refine hall _ (List.mem_filterMap.mpr ⟨entry, hentry, ?_⟩)
    rw [HeaderPolicy.entryText, Option.mem_def.mp hparts]
    rfl
  · intro hall text htext
    obtain ⟨entry, hentry, htext⟩ := List.mem_filterMap.mp htext
    obtain ⟨parts, hparts, rfl⟩ := Option.map_eq_some_iff.mp htext
    exact hall entry hentry parts hparts

theorem permissions_iff_commaFree :
    parsePermissions (", ".intercalate policy.permissionsPolicy) = policy.permissionsPolicy ↔
      ∀ entry ∈ entries, ∀ parts ∈ HeaderPolicy.entryParts entry,
        (∀ c ∈ parts.1.toList, isComma c = false) ∧ ∀ c ∈ parts.2.toList, isComma c = false := by
  have hcommas : (∀ text ∈ policy.permissionsPolicy, ∀ c ∈ text.toList, isComma c = false) ↔
      ∀ entry ∈ entries, ∀ parts ∈ HeaderPolicy.entryParts entry,
        (∀ c ∈ parts.1.toList, isComma c = false) ∧ ∀ c ∈ parts.2.toList, isComma c = false := by
    rw [forall_permissions_iff h (P := fun text => ∀ c ∈ text.toList, isComma c = false)]
    refine forall₂_congr fun entry _ => forall₂_congr fun parts _ => ?_
    rw [toList_entry, List.forall_mem_append, List.forall_mem_cons]
    exact and_congr_right fun _ => and_iff_right (by decide)
  have htrimmed : ∀ text ∈ policy.permissionsPolicy, Text.trim text = text ∧ text ≠ "" := by
    rw [forall_permissions_iff h (P := fun text => Text.trim text = text ∧ text ≠ "")]
    intro entry hentry parts hparts
    obtain ⟨split, -, rfl⟩ := Option.map_eq_some_iff.mp hparts
    have hname := h.named entry hentry _ hparts
    refine ⟨trim_entry (Text.trim_trim _) hname (Text.trim_trim _), fun hnil => ?_⟩
    have hlist := congrArg String.toList hnil
    rw [toList_entry] at hlist
    simp at hlist
  rw [← hcommas]
  exact ⟨commaFree_of_parsePermissions, parsePermissions_of_commaFree htrimmed⟩

theorem safe_iff_clean (hvalid : policy.Valid) : Safe policy ↔ Clean rows entries := by
  have hsemicolons := forall_sources_iff h (P := fun value => ∀ c ∈ value.toList,
    isSemicolon c = false) (forall_of_all rfl)
  have hsources := forall_sources_iff h (P := NoControl) (forall_of_all rfl)
  have hpermissions : (∀ text ∈ policy.permissionsPolicy, NoControl text) ↔
      ∀ entry ∈ entries, ∀ parts ∈ HeaderPolicy.entryParts entry, NoControl parts.1 ∧ NoControl parts.2 := by
    rw [forall_permissions_iff h]
    refine forall₂_congr fun entry _ => forall₂_congr fun parts _ => ?_
    rw [NoControl, toList_entry, List.forall_mem_append, List.forall_mem_cons]
    exact and_congr_right fun _ => and_iff_right (by decide)
  constructor
  · intro hsafe
    obtain ⟨hvalues, htexts⟩ := (lines_iff hvalid).mp hsafe.lines
    exact ⟨hsemicolons.mp (semicolonFree_of_parseCsp hsafe.csp), hsources.mp hvalues, hpermissions.mp htexts,
      (permissions_iff_commaFree h).mp hsafe.permissions⟩
  · intro hclean
    exact ⟨(lines_iff hvalid).mpr ⟨hsources.mpr hclean.sources, hpermissions.mpr hclean.permissions⟩,
      parseCsp_of_semicolonFree hvalid (hsemicolons.mpr hclean.semicolons),
      (permissions_iff_commaFree h).mpr hclean.commas⟩

end Accepted

/-- **An accepted policy is safe** just when no source has a semicolon or a control character
and no permission a comma or a control character. -/
theorem new_safe_iff {mode : CspMode} {rows : List CspDirective} {hsts : HstsPolicy} {options : Bool}
    {referrer : Option String} {entries : List String} {policy : { policy : HeaderPolicy // policy.Valid }}
    (h : HeaderPolicy.new mode rows hsts options referrer entries = .ok policy) : Safe policy ↔ Clean rows entries :=
  safe_iff_clean (HeaderPolicy.builtFrom_of_new h) policy.property

/-- Directives for what is loaded and for scripts. -/
def rowsWith (source : String) : List CspDirective :=
  [{ directive := "default-src", values := ["'self'"] }, { directive := "script-src", values := [source] }]

/-- HSTS for a year. -/
def oneYear : HstsPolicy := { maxAgeSeconds := some 31536000, includeSubdomains := true, preload := false }

theorem self_safe : ∃ policy, HeaderPolicy.new .enforce (rowsWith "'self'") oneYear true none
    ["camera=()"] = .ok policy ∧
    Safe policy ∧ Clean (rowsWith "'self'") ["camera=()"] := by
  obtain ⟨policy, hpolicy⟩ : ∃ policy,
      HeaderPolicy.new .enforce (rowsWith "'self'") oneYear true none ["camera=()"] = .ok policy := ⟨_, rfl⟩
  have hclean : Clean (rowsWith "'self'") ["camera=()"] := clean_of_all (by decide) (by decide)
  exact ⟨policy, hpolicy, (new_safe_iff hpolicy).mpr hclean, hclean⟩

/-- A source with a semicolon adds a directive. -/
theorem two_scripts : ∃ policy,
    HeaderPolicy.new .enforce (rowsWith "'self';object-src") oneYear true none [] = .ok policy ∧
      parseCsp policy.val.cspValue =
        [("default-src", ["'self'"]), ("script-src", ["'self'"]), ("object-src", [])] ∧
      ¬ Safe policy := by
  have hread : ∃ policy, HeaderPolicy.new .enforce (rowsWith "'self';object-src") oneYear true none [] = .ok policy ∧
      policy.val.csp = rowsWith "'self';object-src" ∧ parseCsp policy.val.cspValue =
        [("default-src", ["'self'"]), ("script-src", ["'self'"]), ("object-src", [])] := ⟨_, rfl, rfl, by decide⟩
  obtain ⟨policy, hpolicy, hcsp, hparsed⟩ := hread
  refine ⟨policy, hpolicy, hparsed, fun hsafe => ?_⟩
  have hsame := hsafe.csp
  rw [hparsed, hcsp] at hsame
  exact absurd hsame (by decide)

end Omnion.Security
