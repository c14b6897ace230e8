import Omnion.Identity.WebAuthn

/-!
# What a COSE key says

`cose::parse_key` of `crates/identity/src/webauthn` looks its labels up in the decoded map: the
first entry with a label is the one it sees, and an algorithm that is no `i64` counts as none.

## What is proved

* `parse_alike_iff` — when a key that is accepted is the one every reader of the map sees.
* `alg_of_another_type` — a key whose algorithm is a text, accepted.
-/

namespace Omnion.Identity.WebAuthn

open Cbor

namespace CredentialKey

variable {raw : List UInt8} {key : CredentialKey} {item value : Item} {entries : List (Item × Item)} {label : ℤ}
  {stack : ℕ}

/-! ### What is accepted -/

/-- The type of the key, as label 1 has it. -/
def keyType : CredentialKey → ℤ
  | .es256 .. => 2
  | .ed25519 _ => 1

/-- The curve of the key, as label -1 has it. -/
def curve : CredentialKey → ℤ
  | .es256 .. => 1
  | .ed25519 _ => 6

/-- The coordinates of the key, with their labels. -/
def coordinates : CredentialKey → List (ℤ × List UInt8)
  | .es256 x y => [(-2, x.toList), (-3, y.toList)]
  | .ed25519 x => [(-2, x.toList)]

/-- What is found first at the labels of the map makes up the key. -/
structure Found (item : Item) (key : CredentialKey) : Prop where
  keyType : (item.mapGet 1).bind Item.asInteger = some key.keyType
  curve : (item.mapGet (-1)).bind Item.asInteger = some key.curve
  algorithm : ∀ alg, (item.mapGet 3).bind Item.asInteger = some alg → alg = key.algorithm
  coordinates : ∀ c ∈ key.coordinates, (item.mapGet c.1).bind Item.asBytes = some c.2

theorem toArray_eq_some {n : ℕ} {x : Vector UInt8 n} : toArray n raw = some x ↔ raw = x.toList := by
  unfold toArray
  split_ifs with hlength
  · rw [Option.some_inj]
    exact ⟨fun h => h ▸ rfl, fun h => Vector.toList_inj.mp (by rw [← h]; rfl)⟩
  · refine iff_of_false (by simp) fun h => hlength ?_
    rw [h, Vector.length_toList]

theorem coordinate_eq_ok {what : String} {x : Vector UInt8 32} :
    coordinate item label what = .ok x ↔ (item.mapGet label).bind Item.asBytes = some x.toList := by
  simp only [coordinate, Fallible.bind_eq_ok, okOr_eq_ok, toArray_eq_some]
  constructor
  · rintro ⟨bytes, hbytes, rfl⟩
    exact hbytes
  · exact fun h => ⟨_, h, rfl⟩

theorem algorithm_eq_ok {alg : Option ℤ} {expected : ℤ} {refusal : ℤ → Except (Stop String) CredentialKey}
    {rest : Except (Stop String) CredentialKey} (hrefusal : ∀ a, refusal a ≠ .ok key) :
    (match alg.filter (· ≠ expected) with
      | some a => refusal a
      | none => rest) = .ok key ↔ (∀ a, alg = some a → a = expected) ∧ rest = .ok key := by
  cases alg with
  | none => simp
  | some a => by_cases h : a = expected <;> simp [Option.filter, h, hrefusal]

/-- **What is accepted.** -/
theorem parse_eq_ok : parse stack raw = .ok key ↔ ∃ item, decode stack raw = .ok item ∧ Found item key := by
  simp only [parse, Fallible.bind_eq_ok, okOr_eq_ok]
  refine exists_congr fun item => and_congr_right fun _ => ⟨?_, fun h => ?_⟩
  · rintro ⟨kty, hkty, crv, hcrv, h⟩
    split_ifs at h with hp256 hed25519
    · obtain ⟨rfl, rfl⟩ := hp256
      obtain ⟨halg, hrest⟩ := (algorithm_eq_ok fun _ => refuse_ne_ok).mp h
      obtain ⟨x, hx, hrest⟩ := Fallible.bind_eq_ok.mp hrest
      obtain ⟨y, hy, hrest⟩ := Fallible.bind_eq_ok.mp hrest
      cases hrest
      exact ⟨hkty, hcrv, halg, by simp [coordinates, coordinate_eq_ok.mp hx, coordinate_eq_ok.mp hy]⟩
    · obtain ⟨rfl, rfl⟩ := hed25519
      obtain ⟨halg, hrest⟩ := (algorithm_eq_ok fun _ => refuse_ne_ok).mp h
      obtain ⟨x, hx, hrest⟩ := Fallible.bind_eq_ok.mp hrest
      cases hrest
      exact ⟨hkty, hcrv, halg, by simp [coordinates, coordinate_eq_ok.mp hx]⟩
    · cases h
  · refine ⟨key.keyType, h.keyType, key.curve, h.curve, ?_⟩
    have hcoordinates := h.coordinates
    cases key with
    | es256 x y =>
      simp only [coordinates, List.forall_mem_cons] at hcoordinates
      rw [if_pos (by simp [keyType, curve])]
      refine (algorithm_eq_ok fun _ => refuse_ne_ok).mpr ⟨h.algorithm, Fallible.bind_eq_ok.mpr
        ⟨x, coordinate_eq_ok.mpr hcoordinates.1, ?_⟩⟩
      exact Fallible.bind_eq_ok.mpr ⟨y, coordinate_eq_ok.mpr hcoordinates.2.1, rfl⟩
    | ed25519 x =>
      simp only [coordinates, List.forall_mem_cons] at hcoordinates
      rw [if_neg (by simp [keyType]), if_pos (by simp [keyType, curve])]
      exact (algorithm_eq_ok fun _ => refuse_ne_ok).mpr ⟨h.algorithm, Fallible.bind_eq_ok.mpr
        ⟨x, coordinate_eq_ok.mpr hcoordinates.1, rfl⟩⟩

/-! ### What every reader sees -/

def Labelled (label : ℤ) (entry : Item × Item) : Prop := entry.1.asInteger = some label

instance (label : ℤ) : DecidablePred (Labelled label) := fun entry =>
  inferInstanceAs (Decidable (entry.1.asInteger = some label))

/-- The labels of a key. -/
def labels : List ℤ := [1, 3, -1, -2, -3]

/-- No label of a key occurs twice. -/
def Once (entries : List (Item × Item)) : Prop := ∀ label ∈ labels, entries.countP (Labelled label) ≤ 1

/-- Every reader of the map sees this value at the label. -/
structure Sees (entries : List (Item × Item)) (label : ℤ) (P : Item → Prop) : Prop where
  present : ∃ entry ∈ entries, Labelled label entry
  only : ∀ entry ∈ entries, Labelled label entry → P entry.2

/-- The map says the key to every reader. -/
structure Says (entries : List (Item × Item)) (key : CredentialKey) : Prop where
  once : Once entries
  keyType : Sees entries 1 fun value => value.asInteger = some key.keyType
  curve : Sees entries (-1) fun value => value.asInteger = some key.curve
  /-- The algorithm, where there is one. -/
  algorithm : ∀ entry ∈ entries, Labelled 3 entry → entry.2.asInteger = some key.algorithm
  coordinates : ∀ c ∈ key.coordinates, Sees entries c.1 fun value => value = .bytes c.2

/-- The key is the one every reader of the map sees. -/
structure Alike (stack : ℕ) (raw : List UInt8) (key : CredentialKey) (entries : List (Item × Item)) : Prop
    extends Says entries key where
  decoded : decode stack raw = .ok (.map entries)

/-- No label occurs twice, and the algorithm is read if there is one. -/
structure Plain (entries : List (Item × Item)) : Prop where
  once : Once entries
  algorithm : ∀ entry ∈ entries, Labelled 3 entry → entry.2.asInteger ≠ none

theorem exists_of_mapGet (h : item.mapGet label = some value) :
    ∃ entries, item = .map entries ∧ ∃ entry ∈ entries, Labelled label entry ∧ entry.2 = value := by
  obtain ⟨entries, hitem, hfind⟩ := Option.bind_eq_some_iff.mp h
  obtain ⟨entry, hentry, rfl⟩ := Option.map_eq_some_iff.mp hfind
  have hmap : item = .map entries := by
    cases item <;> simp [Item.asEntries] at hitem
    rw [hitem]
  have hlabel : entry.1.asInteger = some label := by simpa using List.find?_some hentry
  exact ⟨entries, hmap, entry, List.mem_of_find?_eq_some hentry, hlabel, rfl⟩

theorem mapGet_of_once (honce : entries.countP (Labelled label) ≤ 1) {entry : Item × Item} (hentry : entry ∈ entries)
    (hlabel : Labelled label entry) : (Item.map entries).mapGet label = some entry.2 := by
  have hfind : entries.find? (fun e => e.1.asInteger = some label) = some entry := by
    obtain ⟨before, after, rfl⟩ := List.append_of_mem hentry
    have hbefore : ∀ e ∈ before, ¬ Labelled label e := by
      simp only [List.countP_append, List.countP_cons, decide_eq_true hlabel, if_true] at honce
      simpa using List.countP_eq_zero.mp (show before.countP (Labelled label) = 0 by omega)
    rw [List.find?_append, List.find?_eq_none.mpr fun e he => by simpa [Labelled] using hbefore e he, Option.none_or]
    exact List.find?_cons_of_pos (decide_eq_true hlabel)
  simp [Item.mapGet, Item.asEntries, hfind]

theorem sees_of_once (honce : entries.countP (Labelled label) ≤ 1) (h : (Item.map entries).mapGet label = some value)
    {P : Item → Prop} (hvalue : P value) : Sees entries label P := by
  obtain ⟨found, hfound, entry, hentry, hlabel, rfl⟩ := exists_of_mapGet h
  cases hfound
  refine ⟨⟨entry, hentry, hlabel⟩, fun other hother hsame => ?_⟩
  rw [mapGet_of_once honce hother hsame, Option.some.injEq] at h
  exact h ▸ hvalue

theorem label_mem_labels {c : ℤ × List UInt8} (hc : c ∈ key.coordinates) : c.1 ∈ labels := by
  cases key with
  | es256 x y =>
    simp only [coordinates, List.mem_cons, List.not_mem_nil, or_false] at hc
    rcases hc with rfl | rfl <;> simp [labels]
  | ed25519 x =>
    obtain rfl := List.mem_singleton.mp hc
    simp [labels]

theorem asBytes_eq_some {bytes : List UInt8} : value.asBytes = some bytes ↔ value = .bytes bytes := by
  cases value <;> simp [Item.asBytes]

theorem says_iff (h : Found (.map entries) key) : Says entries key ↔ Plain entries := by
  constructor
  · exact fun hsaid => ⟨hsaid.once, fun entry hentry hlabel => by simp [hsaid.algorithm entry hentry hlabel]⟩
  · rintro ⟨honce, hread⟩
    obtain ⟨kty, hkty, hktyValue⟩ := Option.bind_eq_some_iff.mp h.keyType
    obtain ⟨crv, hcrv, hcrvValue⟩ := Option.bind_eq_some_iff.mp h.curve
    refine ⟨honce, sees_of_once (honce 1 (by decide)) hkty hktyValue,
      sees_of_once (honce (-1) (by decide)) hcrv hcrvValue, fun entry hentry hlabel => ?_, fun c hc => ?_⟩
    · obtain ⟨alg, halg⟩ := Option.ne_none_iff_exists'.mp (hread entry hentry hlabel)
      rw [halg, h.algorithm alg (by rw [mapGet_of_once (honce 3 (by decide)) hentry hlabel, Option.bind_some, halg])]
    · obtain ⟨value, hvalue, hbytes⟩ := Option.bind_eq_some_iff.mp (h.coordinates c hc)
      exact sees_of_once (honce c.1 (label_mem_labels hc)) hvalue (asBytes_eq_some.mp hbytes)

theorem Says.found (h : Says entries key) : Found (.map entries) key := by
  have hfirst : ∀ {label : ℤ} {P : Item → Prop}, label ∈ labels → Sees entries label P →
      ∃ value, (Item.map entries).mapGet label = some value ∧ P value := by
    intro label P hlabel hsees
    obtain ⟨entry, hentry, hsame⟩ := hsees.present
    exact ⟨entry.2, mapGet_of_once (h.once label hlabel) hentry hsame, hsees.only entry hentry hsame⟩
  obtain ⟨kty, hkty, hktyValue⟩ := hfirst (by decide) h.keyType
  obtain ⟨crv, hcrv, hcrvValue⟩ := hfirst (by decide) h.curve
  refine ⟨by rw [hkty, Option.bind_some, hktyValue], by rw [hcrv, Option.bind_some, hcrvValue],
    fun alg halg => ?_, fun c hc => ?_⟩
  · obtain ⟨value, hvalue, halg⟩ := Option.bind_eq_some_iff.mp halg
    obtain ⟨found, hfound, entry, hentry, hlabel, rfl⟩ := exists_of_mapGet hvalue
    cases hfound
    exact Option.some.inj (halg.symm.trans (h.algorithm entry hentry hlabel))
  · obtain ⟨value, hvalue, rfl⟩ := hfirst (label_mem_labels hc) (h.coordinates c hc)
    rw [hvalue]
    rfl

theorem Found.exists_map (h : Found item key) : ∃ entries, item = .map entries := by
  obtain ⟨kty, hkty, -⟩ := Option.bind_eq_some_iff.mp h.keyType
  obtain ⟨entries, hitem, -⟩ := exists_of_mapGet hkty
  exact ⟨entries, hitem⟩

/-- **Every reader sees the key** that is accepted, just when no label of a map that makes up a
key occurs twice and its algorithm is read. -/
theorem parse_alike_iff (stack : ℕ) (raw : List UInt8) :
    (∀ key, parse stack raw = .ok key → ∃ entries, Alike stack raw key entries) ↔
      ∀ entries key, decode stack raw = .ok (.map entries) → Found (.map entries) key → Plain entries := by
  constructor
  · intro h entries key hdecode hfound
    obtain ⟨entries', halike⟩ := h key (parse_eq_ok.mpr ⟨_, hdecode, hfound⟩)
    obtain rfl : entries' = entries := by simpa [hdecode] using halike.decoded.symm
    exact (says_iff hfound).mp halike.toSays
  · intro h key hparse
    obtain ⟨item, hdecode, hfound⟩ := parse_eq_ok.mp hparse
    obtain ⟨entries, rfl⟩ := hfound.exists_map
    exact ⟨entries, (says_iff hfound).mpr (h entries key hdecode hfound), hdecode⟩

/-- `{1: 2, 3: "x", -1: 1, -2: h'01…', -3: h'02…'}`. -/
def textAlgorithm : List UInt8 :=
  [0xa5, 0x01, 0x02, 0x03, 0x61, 0x78, 0x20, 0x01, 0x21, 0x58, 0x20] ++ List.replicate 32 1 ++
    [0x22, 0x58, 0x20] ++ List.replicate 32 2

theorem alg_of_another_type :
    ¬ ∀ key, parse 64 textAlgorithm = .ok key → ∃ entries, Alike 64 textAlgorithm key entries := by
  intro h
  have hparse : parse 64 textAlgorithm = .ok (.es256 (.replicate 32 1) (.replicate 32 2)) := by rfl
  have htext : (decode 64 textAlgorithm).toOption.bind (fun item => (item.mapGet 3).bind Item.asText) =
      some "x" := by rfl
  obtain ⟨entries, halike⟩ := h _ hparse
  rw [halike.decoded] at htext
  change ((Item.map entries).mapGet 3).bind Item.asText = some "x" at htext
  obtain ⟨value, hvalue, hasText⟩ := Option.bind_eq_some_iff.mp htext
  obtain ⟨found, hfound, entry, hentry, hlabel, rfl⟩ := exists_of_mapGet hvalue
  cases hfound
  have halg := halike.algorithm entry hentry hlabel
  cases hitem : entry.2 <;> simp [hitem, Item.asText, Item.asInteger] at hasText halg

end CredentialKey

end Omnion.Identity.WebAuthn
