import Mathlib.Algebra.GroupWithZero.Nat
import Mathlib.Algebra.Order.Ring.Abs
import Mathlib.Data.Rat.Floor
import Omnion.Core.Json
import Omnion.Core.Text
import Omnion.Library.Fallible
import Omnion.Library.Keyed

/-!
# The pairs of a file

`crates/media/src/metadata_pairs.rs`: the keys and values that an editor hangs on a file. A request brings them as a
document (`parse`), the row stores them as one (`to_json`, `from_json`), and the browser filters by a text of a key, an
equals sign and a value (`filter_clause`).

## The model

Pairs are a map of texts. Which characters are letters or digits, and how a float is displayed, are parameters:
`isAlphanumeric` is `char::is_alphanumeric`, `display` is the `Display` of `f64`.

## What is proved

* `kept_iff` — pairs that were accepted are read back from the row as they are, and are accepted again as they are; and
  each is found by its own text just when there is no equals sign in a key, and no value is empty or has blanks at its
  ends. `parse` trims keys and leaves values as they come; `filter_clause` trims both, and cuts at the first equals sign.
-/

namespace Omnion.Media.MetadataPairs

open Std (TreeMap)
open Text

/-- How many pairs a file may carry. -/
def MAX_PAIRS : ℕ := 40

/-- The longest key, in bytes. -/
def MAX_KEY_LENGTH : ℕ := 60

/-- The longest value, in bytes. -/
def MAX_VALUE_LENGTH : ℕ := 500

/-- The longest total, in bytes. -/
def MAX_TOTAL_LENGTH : ℕ := 8000

/-- Why a document is refused (`MediaError::InvalidMetadata`). -/
structure MetadataError where
  field : String
  reason : String

/-- The pairs of a file. -/
abbrev Pairs := TreeMap String String

/-- The kind of a value, in words. -/
def jsonKind : Json → String
  | .null => "null"
  | .bool _ => "a boolean"
  | .number _ => "a number"
  | .string _ => "text"
  | .array _ => "a list"
  | .object _ => "an object"

/-- A character that makes a key visible. -/
def visible (isAlphanumeric : Char → Bool) (c : Char) : Bool := isAlphanumeric c || c = '_' || c = '-' || c = '.'

/-- A float as text: a whole one as the integer that it is. -/
def floatText (display : ℚ → String) (float : ℚ) : String :=
  if float.den = 1 ∧ |float| < 9007199254740992 then toString float.num else display float

def scalarText (display : ℚ → String) : Json → Option String
  | .string text => some text
  | .number number =>
    match (Json.number number).asI64 with
    | some whole => some (toString whole)
    | none => (Json.number number).asF64.map (floatText display)
  | .bool flag => some (toString flag)
  | _ => none

section

variable (isAlphanumeric : Char → Bool) (display : ℚ → String)

/-- One more pair, and the bytes that there are. -/
def insertPair (sofar : Pairs × ℕ) (field : String × Json) : Except MetadataError (Pairs × ℕ) :=
  let key := trim field.1
  if key = "" then .error ⟨"metadata", "a key cannot be blank"⟩
  else if MAX_KEY_LENGTH < key.utf8ByteSize then
    .error ⟨"metadata." ++ key, "the key is " ++ debug key ++ " is longer than " ++ toString MAX_KEY_LENGTH ++ " bytes"⟩
  else if ¬ key.toList.any (visible isAlphanumeric) then
    .error ⟨"metadata." ++ key, "a key needs at least one letter, digit, `_`, `-` or `.`"⟩
  else
    match scalarText display field.2 with
    | none =>
      .error ⟨"metadata." ++ key, "the value must be text, a number or a boolean — found " ++ jsonKind field.2⟩
    | some text =>
      if MAX_VALUE_LENGTH < text.utf8ByteSize then
        .error ⟨"metadata." ++ key, "the value of " ++ debug key ++ " is " ++ toString text.utf8ByteSize ++
          " bytes; the longest accepted value is " ++ toString MAX_VALUE_LENGTH⟩
      else
        let total := sofar.2 + (key.utf8ByteSize + text.utf8ByteSize)
        if MAX_TOTAL_LENGTH < total then
          .error ⟨"metadata", "the pairs together are over the " ++ toString MAX_TOTAL_LENGTH ++
            " byte limit; remove one or shorten a value"⟩
        else
          match sofar.1[key]? with
          | some existing =>
            .error ⟨"metadata." ++ key, "the key " ++ debug key ++ " is already set (as " ++ debug existing ++ ")"⟩
          | none => .ok (sofar.1.insert key text, total)

/-- Turn a document into pairs. -/
def parse : Json → Except MetadataError Pairs
  | .object fields => do
    let (pairs, _) ← fields.foldlM (insertPair isAlphanumeric display) (∅, 0)
    if MAX_PAIRS < pairs.size then
      .error ⟨"metadata", "a file carries at most " ++ toString MAX_PAIRS ++ " pairs; " ++ toString pairs.size ++
        " were sent"⟩
    else pure pairs
  | .null => .ok ∅
  | other => .error ⟨"metadata", "expected an object of key/value pairs, found " ++ jsonKind other⟩

/-- The document that the row stores. -/
def toJson (pairs : Pairs) : Json := .object (pairs.toList.map fun pair => (pair.1, .string pair.2))

/-- One more pair of a row, when it is one. -/
def readPair (pairs : Pairs) (field : String × Json) : Pairs :=
  match scalarText display field.2 with
  | some text => pairs.insert field.1 text
  | none => pairs

/-- Read a row. -/
def fromJson : Json → Pairs
  | .object fields => fields.foldl (readPair display) ∅
  | _ => ∅

end

/-- The key and the value that a term filters by. -/
def filterClause (term : String) : Option (String × String) := do
  let (key, value) ← splitOnce ['='] term.toList
  let key := trim (String.ofList key)
  let value := trim (String.ofList value)
  if key = "" ∨ value = "" then none
  else if MAX_KEY_LENGTH < key.utf8ByteSize ∨ MAX_VALUE_LENGTH < value.utf8ByteSize then none
  else some (key, value)

/-! ### What is to come of pairs -/

def term (pair : String × String) : String := pair.1 ++ "=" ++ pair.2

/-- **Pairs are kept**: the row is read back as they are, and accepted as they are, and each is found by its text. -/
structure Kept (isAlphanumeric : Char → Bool) (display : ℚ → String) (pairs : Pairs) : Prop where
  stored : (fromJson display (toJson pairs)).toList = pairs.toList
  accepted : ∃ again, parse isAlphanumeric display (toJson pairs) = .ok again ∧ again.toList = pairs.toList
  found : ∀ pair ∈ pairs.toList, filterClause (term pair) = some pair

/-- What a pair is to be, to be found. -/
def Findable (pair : String × String) : Prop := '=' ∉ pair.1.toList ∧ trim pair.2 = pair.2 ∧ pair.2 ≠ ""

/-! ### Documents that are accepted -/

variable {isAlphanumeric : Char → Bool} {display : ℚ → String} {pairs again m m' : Pairs} {t t' : ℕ}
variable {field : String × Json} {fields : List (String × Json)} {pair : String × String} {l : List (String × String)}

/-- The bytes of a pair. -/
def weight (pair : String × String) : ℕ := pair.1.utf8ByteSize + pair.2.utf8ByteSize

/-- What a pair that was accepted is. -/
structure Legal (isAlphanumeric : Char → Bool) (pair : String × String) : Prop where
  trimmed : trim pair.1 = pair.1
  named : pair.1 ≠ ""
  short : pair.1.utf8ByteSize ≤ MAX_KEY_LENGTH
  visible : pair.1.toList.any (visible isAlphanumeric) = true
  value : pair.2.utf8ByteSize ≤ MAX_VALUE_LENGTH

/-- **When a pair is accepted.** -/
theorem insertPair_eq_ok : insertPair isAlphanumeric display (m, t) field = .ok (m', t') ↔
    ∃ text, scalarText display field.2 = some text ∧ Legal isAlphanumeric (trim field.1, text) ∧
      t' = t + weight (trim field.1, text) ∧ t' ≤ MAX_TOTAL_LENGTH ∧ m[trim field.1]? = none ∧
      m' = m.insert (trim field.1) text := by
  unfold insertPair
  dsimp only
  constructor
  · intro h
    split_ifs at h with hblank hlong hvisible
    split at h
    · cases h
    rename_i text htext
    split_ifs at h with hvalue htotal
    split at h
    · cases h
    rename_i hfree
    cases h
    exact ⟨text, htext, ⟨trim_trim _, hblank, not_lt.mp hlong, hvisible, not_lt.mp hvalue⟩, rfl,
      not_lt.mp htotal, hfree, rfl⟩
  · rintro ⟨text, htext, hlegal, rfl, htotal, hfree, rfl⟩
    rw [if_neg hlegal.named, if_neg (not_lt.mpr hlegal.short), if_neg (not_not.mpr hlegal.visible), htext]
    dsimp only
    rw [if_neg (not_lt.mpr hlegal.value), hfree]
    exact if_neg (not_lt.mpr htotal)

/-- What the pairs of a document are, beside those that there are. -/
theorem pairs_of_fold (h : fields.foldlM (insertPair isAlphanumeric display) (m, t) = .ok (m', t')) :
    ∃ l : List (String × String), (∀ pair ∈ l, Legal isAlphanumeric pair) ∧ (l.map Prod.fst).Nodup ∧
      (∀ pair ∈ l, m[pair.1]? = none) ∧ m' = l.foldl (Keyed.put Prod.fst Prod.snd) m ∧
      t' = t + (l.map weight).sum ∧ (t ≤ MAX_TOTAL_LENGTH → t' ≤ MAX_TOTAL_LENGTH) := by
  induction fields generalizing m t with
  | nil =>
    cases h
    exact ⟨[], nofun, List.nodup_nil, nofun, rfl, rfl, id⟩
  | cons field fields ih =>
    rw [List.foldlM_cons] at h
    obtain ⟨⟨next, total⟩, hinsert, h⟩ := Fallible.bind_eq_ok.mp h
    obtain ⟨text, -, hlegal, rfl, htotal, hfree, rfl⟩ := insertPair_eq_ok.mp hinsert
    obtain ⟨l, hall, hnodup, hrest, rfl, rfl, hle⟩ := ih h
    -- A key that is there already is refused, so that the keys differ.
    have hne : ∀ pair ∈ l, trim field.1 ≠ pair.1 ∧ m[pair.1]? = none := by
      intro pair hpair
      have hnone := hrest pair hpair
      rw [TreeMap.getElem?_insert] at hnone
      split_ifs at hnone with hcompare
      exact ⟨fun heq => hcompare (heq ▸ Std.compare_self), hnone⟩
    refine ⟨(trim field.1, text) :: l, List.forall_mem_cons.mpr ⟨hlegal, hall⟩, ?_,
      List.forall_mem_cons.mpr ⟨hfree, fun pair hpair => (hne pair hpair).2⟩, rfl, ?_, fun _ => hle htotal⟩
    · rw [List.map_cons, List.nodup_cons, List.mem_map]
      exact ⟨fun ⟨pair, hpair, heq⟩ => (hne pair hpair).1 heq.symm, hnodup⟩
    · rw [List.map_cons, List.sum_cons, add_assoc]

/-- Texts with legal keys are accepted, one after the other. -/
theorem fold_of_legal (hlegal : ∀ pair ∈ l, Legal isAlphanumeric pair) (hnodup : (l.map Prod.fst).Nodup)
    (hfree : ∀ pair ∈ l, m[pair.1]? = none) (htotal : t + (l.map weight).sum ≤ MAX_TOTAL_LENGTH) :
    (l.map fun pair => (pair.1, Json.string pair.2)).foldlM (insertPair isAlphanumeric display) (m, t) =
      .ok (l.foldl (Keyed.put Prod.fst Prod.snd) m, t + (l.map weight).sum) := by
  induction l generalizing m t with
  | nil => rfl
  | cons pair l ih =>
    rw [List.forall_mem_cons] at hlegal hfree
    rw [List.map_cons, List.nodup_cons, List.mem_map] at hnodup
    rw [List.map_cons, List.sum_cons, ← add_assoc] at htotal
    have htrim := hlegal.1.trimmed
    have hinsert : insertPair isAlphanumeric display (m, t) (pair.1, .string pair.2) =
        .ok (m.insert pair.1 pair.2, t + weight pair) := by
      refine insertPair_eq_ok.mpr ⟨pair.2, rfl, ?_⟩
      dsimp only
      rw [htrim]
      exact ⟨hlegal.1, rfl, (Nat.le_add_right _ _).trans htotal, hfree.1, rfl⟩
    have hrest : ∀ other ∈ l, (m.insert pair.1 pair.2)[other.1]? = none := by
      intro other hother
      rw [TreeMap.getElem?_insert, if_neg, hfree.2 other hother]
      exact fun hcompare => hnodup.1 ⟨other, hother, (Std.LawfulEqOrd.eq_of_compare hcompare).symm⟩
    rw [List.map_cons, List.foldlM_cons, hinsert, List.map_cons, List.sum_cons, ← add_assoc]
    exact ih hlegal.2 hnodup.2 hrest htotal

/-- **What pairs are that were accepted.** -/
structure Accepted (isAlphanumeric : Char → Bool) (pairs : Pairs) : Prop where
  legal : ∀ pair ∈ pairs.toList, Legal isAlphanumeric pair
  total : (pairs.toList.map weight).sum ≤ MAX_TOTAL_LENGTH
  size : pairs.size ≤ MAX_PAIRS

theorem accepted_of_parse {document : Json} (h : parse isAlphanumeric display document = .ok pairs) :
    Accepted isAlphanumeric pairs := by
  unfold parse at h
  split at h
  · obtain ⟨⟨found, total⟩, hfold, h⟩ := Fallible.bind_eq_ok.mp h
    dsimp only at h
    split_ifs at h with hsize
    cases h
    obtain ⟨l, hlegal, hnodup, -, rfl, rfl, hle⟩ := pairs_of_fold hfold
    have hpairs : (Keyed.ofAll Prod.fst Prod.snd l).toList.Perm (l.map fun pair => (pair.1, pair.2)) :=
      Keyed.perm_toList_ofAll hnodup
    have hperm : (Keyed.ofAll Prod.fst Prod.snd l).toList.Perm l := by simpa using hpairs
    have hsum := (hperm.map weight).sum_eq
    refine ⟨fun pair hpair => hlegal pair (hperm.mem_iff.mp hpair), hsum.trans_le ?_, not_lt.mp hsize⟩
    rw [← Nat.zero_add (l.map weight).sum]
    exact hle (Nat.zero_le _)
  · cases h
    exact ⟨nofun, Nat.zero_le _, Nat.zero_le _⟩
  · cases h

/-! ### What is stored, and accepted again -/

theorem toList_fromJson_toJson (pairs : Pairs) : (fromJson display (toJson pairs)).toList = pairs.toList := by
  have hfold : ∀ (l : List (String × String)) (m : Pairs),
      (l.map fun pair => (pair.1, Json.string pair.2)).foldl (readPair display) m =
        l.foldl (Keyed.put Prod.fst Prod.snd) m := by
    intro l
    induction l with
    | nil => exact fun _ => rfl
    | cons pair l ih => exact fun m => ih _
  rw [toJson, fromJson, hfold]
  exact Keyed.toList_ofAll_entries (.refl _)

theorem Accepted.parse_toJson (h : Accepted isAlphanumeric pairs) :
    ∃ again, parse isAlphanumeric display (toJson pairs) = .ok again ∧ again.toList = pairs.toList := by
  have hsame : (Keyed.ofAll Prod.fst Prod.snd pairs.toList).toList = pairs.toList :=
    Keyed.toList_ofAll_entries (.refl _)
  have hsize : ¬ MAX_PAIRS < (Keyed.ofAll Prod.fst Prod.snd pairs.toList).size := by
    rw [← TreeMap.length_toList, hsame, TreeMap.length_toList]
    exact not_lt.mpr h.size
  refine ⟨_, ?_, hsame⟩
  rw [toJson, parse, fold_of_legal h.legal (Keyed.nodup_keys pairs) (fun _ _ => by simp) (by simpa using h.total)]
  exact if_neg hsize

/-! ### What is found -/

theorem mem_of_mem_trim {s : String} {c : Char} (h : c ∈ (trim s).toList) : c ∈ s.toList := by
  rw [trim, String.toList_ofList] at h
  exact (List.dropWhile_suffix _).subset ((List.rdropWhile_prefix _ _).subset h)

/-- **A pair is found** just when its key has no equals sign, and its value is something, without blanks around it. -/
theorem filterClause_term_iff (h : Legal isAlphanumeric pair) : filterClause (term pair) = some pair ↔
    Findable pair := by
  obtain ⟨key, value⟩ := pair
  have hterm : (term (key, value)).toList = key.toList ++ '=' :: value.toList := by simp [term]
  have htrim : trim key = key := h.trimmed
  constructor
  · intro hfound
    obtain ⟨⟨before, after⟩, hsplit, hclause⟩ := Option.bind_eq_some_iff.mp hfound
    dsimp only at hclause
    split_ifs at hclause with hblank hlong
    obtain ⟨hkey, hvalue⟩ := Prod.mk.inj (Option.some.inj hclause)
    -- The key that was cut off has no equals sign, so neither has this one.
    have hmark : '=' ∉ key.toList := by
      intro hmem
      rw [← hkey] at hmem
      have hin := mem_of_mem_trim hmem
      rw [String.toList_ofList] at hin
      exact (splitOnce_singleton_eq_some_iff.mp hsplit).2 hin
    have hcut := splitOnce_singleton_eq_some_iff.mpr ⟨hterm, hmark⟩
    rw [hcut] at hsplit
    cases hsplit
    rw [String.ofList_toList] at hvalue
    rw [not_or, String.ofList_toList, String.ofList_toList, hvalue] at hblank
    exact ⟨hmark, hvalue, hblank.2⟩
  · rintro ⟨hmark, hvalue, hne⟩
    have hcut := splitOnce_singleton_eq_some_iff.mpr ⟨hterm, hmark⟩
    dsimp only at hvalue hne
    rw [filterClause, hcut]
    dsimp only [Option.bind_eq_bind, Option.bind_some]
    rw [String.ofList_toList, String.ofList_toList, htrim, hvalue, if_neg (not_or.mpr ⟨h.named, hne⟩),
      if_neg (not_or.mpr ⟨not_lt.mpr h.short, not_lt.mpr h.value⟩)]

/-- **Pairs that were accepted are kept** just when each is findable. -/
theorem kept_iff (isAlphanumeric : Char → Bool) (display : ℚ → String) (document : Json) (pairs : Pairs)
    (h : parse isAlphanumeric display document = .ok pairs) :
    Kept isAlphanumeric display pairs ↔ ∀ pair ∈ pairs.toList, Findable pair := by
  have haccepted := accepted_of_parse h
  constructor
  · exact fun hkept pair hpair => (filterClause_term_iff (haccepted.legal pair hpair)).mp (hkept.found pair hpair)
  · intro hall
    refine ⟨toList_fromJson_toJson pairs, haccepted.parse_toJson, fun pair hpair => ?_⟩
    exact (filterClause_term_iff (haccepted.legal pair hpair)).mpr (hall pair hpair)

/-- A document with a campaign. -/
def campaign (value : String) : Json := .object [("campaign", .string value)]

theorem parse_campaign (value : String) (h : value.utf8ByteSize ≤ MAX_VALUE_LENGTH) :
    parse Char.isAlphanum (fun _ => "") (campaign value) = .ok ((∅ : Pairs).insert "campaign" value) := by
  have htrim : trim "campaign" = "campaign" := by decide
  have hnamed : "campaign" ≠ "" := by decide
  have hshort : "campaign".utf8ByteSize ≤ MAX_KEY_LENGTH := by decide
  have hvisible : "campaign".toList.any (visible Char.isAlphanum) = true := by decide
  have hbytes : "campaign".utf8ByteSize = 8 := by decide
  have hinsert : insertPair Char.isAlphanum (fun _ => "") (∅, 0) ("campaign", .string value) =
      .ok ((∅ : Pairs).insert "campaign" value, 0 + weight ("campaign", value)) := by
    refine insertPair_eq_ok.mpr ⟨value, rfl, ?_⟩
    dsimp only
    rw [htrim]
    refine ⟨⟨htrim, hnamed, hshort, hvisible, h⟩, rfl, ?_, by simp, rfl⟩
    rw [weight, hbytes, MAX_TOTAL_LENGTH]
    rw [MAX_VALUE_LENGTH] at h
    dsimp only
    omega
  rw [campaign, parse, List.foldlM_cons, hinsert]
  rfl

/-- A campaign in spring is found. -/
theorem kept_iff_spring : Kept Char.isAlphanum (fun _ => "") ((∅ : Pairs).insert "campaign" "spring") ↔
    ∀ pair ∈ ((∅ : Pairs).insert "campaign" "spring").toList, Findable pair :=
  kept_iff Char.isAlphanum (fun _ => "") (campaign "spring") _ (parse_campaign "spring" (by decide))

/-- **A value with a blank behind it is not found** by its own text. -/
theorem blank_not_found : ¬ ∀ (isAlphanumeric : Char → Bool) (display : ℚ → String) (document : Json) (pairs : Pairs),
    parse isAlphanumeric display document = .ok pairs → Kept isAlphanumeric display pairs := by
  intro h
  have hkept := h Char.isAlphanum (fun _ => "") (campaign "spring ") _ (parse_campaign "spring " (by decide))
  have hmem : ("campaign", "spring ") ∈ ((∅ : Pairs).insert "campaign" "spring ").toList := by
    rw [TreeMap.mem_toList_iff_getElem?_eq_some, TreeMap.getElem?_insert_self]
  have hfound := hkept.found _ hmem
  exact absurd hfound (by decide)

end Omnion.Media.MetadataPairs
