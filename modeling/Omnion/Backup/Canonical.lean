import Mathlib.Data.String.Basic
import Omnion.Backup.Part
import Omnion.Core.JsonText
import Omnion.Library.Sorting

/-!
# The canonical form of a manifest

The checksum of a manifest is taken over its canonical form: its parts sorted by name,
each as an object of six fields. Parts of one name stay in the order they had, and an
absent text is written as `null`, an empty one as `""`.

## What is proved

* `canonical_iff` — the canonical form depends on what the manifest records only
  (`Canonical`) exactly when every part has a digest and a storage path and parts of
  one name are written alike.
* `absent_and_empty` — an absent digest and an empty one are written differently.
-/

namespace Omnion.Backup

open Sorting Printing

/-- A part as the canonical form writes it. -/
structure NormalisedPart where
  checksum : Option String
  itemCount : ℤ
  part : String
  sizeBytes : ℤ
  status : String
  storagePath : Option String

/-- The fields of a part that are written. -/
def Part.normalised (part : Part) : NormalisedPart where
  part := part.part
  status := part.status.asStr
  itemCount := part.itemCount
  sizeBytes := part.sizeBytes
  checksum := part.checksum
  storagePath := part.storagePath

/-- The text of a part, its keys in the order the map keeps them. -/
def NormalisedPart.text (part : NormalisedPart) : List Char :=
  JsonText.object [
    ("checksum", JsonText.optional part.checksum),
    ("item_count", JsonText.int part.itemCount),
    ("part", JsonText.string part.part),
    ("size_bytes", JsonText.int part.sizeBytes),
    ("status", JsonText.string part.status),
    ("storage_path", JsonText.optional part.storagePath)]

/-- The text of a manifest with its parts sorted and normalised. -/
def manifestText (backupId createdAt : String) (parts : List NormalisedPart) (version : ℕ) :
    List Char :=
  JsonText.object [
    ("backup_id", JsonText.string backupId),
    ("created_at", JsonText.string createdAt),
    ("parts", JsonText.array NormalisedPart.text parts),
    ("version", JsonText.int version)]

/-- The text a manifest's checksum is taken over. -/
def canonicalJson (manifest : Manifest) : String :=
  let parts := sortBy Part.part manifest.parts
  let normalised := parts.map Part.normalised
  String.ofList (manifestText manifest.backupId manifest.createdAt normalised manifest.version)

/-- The digest of a manifest's canonical form, `hash` being the digest of bytes. -/
def manifestChecksum (hash : ByteArray → String) (manifest : Manifest) : String :=
  hash (canonicalJson manifest).toUTF8

/-! ### What the canonical form determines -/

theorem not_isNumeral_comma : ¬ JsonText.IsNumeral ',' := by
  rintro (h | h) <;> exact absurd h (by decide)

theorem not_isNumeral_brace : ¬ JsonText.IsNumeral '\x7d' := by
  rintro (h | h) <;> exact absurd h (by decide)

theorem readable_text : Readable (fun _ => True) NormalisedPart.text := by
  intro a b s t _ _ heq
  simp only [NormalisedPart.text, JsonText.object, separated_cons, List.flatMap_cons, List.flatMap_nil,
    List.cons_append, List.append_assoc, List.nil_append, List.cons.injEq, true_and] at heq
  obtain ⟨hchecksum, heq⟩ := JsonText.readable_optional.field trivial heq
  obtain ⟨hitemCount, heq⟩ := JsonText.readable_int.field not_isNumeral_comma heq
  obtain ⟨hpart, heq⟩ := JsonText.readable_string.field trivial heq
  obtain ⟨hsizeBytes, heq⟩ := JsonText.readable_int.field not_isNumeral_comma heq
  obtain ⟨hstatus, heq⟩ := JsonText.readable_string.field trivial heq
  obtain ⟨hstoragePath, heq⟩ := JsonText.readable_optional.field trivial heq
  cases a
  cases b
  simp_all

theorem readable_parts : Readable (fun _ => True) (JsonText.array NormalisedPart.text) :=
  (readable_text.separated trivial trivial (by decide) fun _ => ⟨'\x7b', _, rfl, by decide⟩).after ['[']

theorem manifestText_inj {backupId backupId' createdAt createdAt' : String}
    {parts parts' : List NormalisedPart} {version version' : ℕ}
    (h : manifestText backupId createdAt parts version = manifestText backupId' createdAt' parts' version') :
    backupId = backupId' ∧ createdAt = createdAt' ∧ parts = parts' ∧ version = version' := by
  simp only [manifestText, JsonText.object, separated_cons, List.flatMap_cons, List.flatMap_nil, List.cons_append,
    List.append_assoc, List.nil_append, List.cons.injEq, true_and] at h
  obtain ⟨hbackupId, h⟩ := JsonText.readable_string.field trivial h
  obtain ⟨hcreatedAt, h⟩ := JsonText.readable_string.field trivial h
  obtain ⟨hparts, h⟩ := readable_parts.field trivial h
  obtain ⟨hversion, -⟩ := JsonText.readable_int.field not_isNumeral_brace h
  exact ⟨hbackupId, hcreatedAt, hparts, Int.ofNat.inj hversion⟩

variable {m m' : Manifest}

theorem map_normalised_sortBy (parts : List Part) :
    (sortBy Part.part parts).map Part.normalised = sortBy NormalisedPart.part (parts.map Part.normalised) :=
  map_sortBy Part.part NormalisedPart.part (fun _ => rfl) parts

theorem canonicalJson_eq_iff :
    canonicalJson m = canonicalJson m' ↔
      m.backupId = m'.backupId ∧ m.createdAt = m'.createdAt ∧
        sortBy NormalisedPart.part (m.parts.map Part.normalised) =
          sortBy NormalisedPart.part (m'.parts.map Part.normalised) ∧ m.version = m'.version := by
  simp only [canonicalJson, map_normalised_sortBy]
  constructor
  · intro h
    exact manifestText_inj (String.ofList_injective h)
  · rintro ⟨hbackupId, hcreatedAt, hparts, hversion⟩
    rw [hbackupId, hcreatedAt, hparts, hversion]

/-! ### What a canonical form should depend on -/

/-- A part with its absent texts read as empty ones. -/
def Part.withEmpty (part : Part) : Part :=
  { part with
    checksum := some (part.checksum.getD "")
    storagePath := some (part.storagePath.getD "")
    error := some (part.error.getD "") }

/-- The name, state, size and digest a manifest records of a part. -/
def Part.record (part : Part) : String × PartStatus × ℤ × String :=
  (part.part, part.status, part.sizeBytes, part.checksum.getD "")

/-- **What a canonical form should depend on**: not on the order of the parts, not on
whether a text is absent or empty, and on all that is recorded of the parts. -/
structure Canonical (m : Manifest) : Prop where
  order : ∀ parts, parts.Perm m.parts →
    canonicalJson { m with parts } = canonicalJson m ∧
      ∀ hash, manifestChecksum hash { m with parts } = manifestChecksum hash m
  absent : ∀ parts, parts.map Part.withEmpty = m.parts.map Part.withEmpty →
    canonicalJson { m with parts } = canonicalJson m ∧
      ∀ hash, manifestChecksum hash { m with parts } = manifestChecksum hash m
  distinct : ∀ m', ¬ (m'.parts.map Part.record).Perm (m.parts.map Part.record) →
    canonicalJson m' ≠ canonicalJson m

/-- The part has a digest and a storage path. -/
def Part.Complete (part : Part) : Prop := part.checksum.getD "" ≠ "" ∧ part.storagePath.getD "" ≠ ""

theorem canonicalJson_distinct (h : ¬ (m'.parts.map Part.record).Perm (m.parts.map Part.record)) :
    canonicalJson m' ≠ canonicalJson m := by
  intro heq
  apply h
  obtain ⟨-, -, hsorted, -⟩ := canonicalJson_eq_iff.mp heq
  have hperm : (m'.parts.map Part.normalised).Perm (m.parts.map Part.normalised) := by
    apply (sortBy_perm NormalisedPart.part _).symm.trans
    rw [hsorted]
    exact sortBy_perm _ _
  -- What is recorded of a part can be read off what is written of it, the state by its name.
  let withName (r : String × PartStatus × ℤ × String) : String × String × ℤ × String :=
    (r.1, r.2.1.asStr, r.2.2)
  have hinj : Function.Injective withName := by
    rintro ⟨n, s, r⟩ ⟨n', s', r'⟩ heq
    simp only [withName, Prod.mk.injEq] at heq
    rw [heq.1, PartStatus.asStr_injective heq.2.1, heq.2.2]
  apply (List.map_perm_map_iff hinj).mp
  have hrecords := hperm.map fun p => (p.part, p.status, p.sizeBytes, p.checksum.getD "")
  rw [List.map_map, List.map_map] at hrecords ⊢
  exact hrecords

/-! ### When it depends on these only -/

/-- The order of the parts does not matter as far as parts of one name are written alike. -/
theorem order_iff :
    (∀ parts, parts.Perm m.parts → canonicalJson { m with parts } = canonicalJson m) ↔
      ∀ p ∈ m.parts, ∀ q ∈ m.parts, p.part = q.part → p.normalised = q.normalised := by
  constructor
  · intro h p hp q hq hname
    by_cases hpq : p = q
    · rw [hpq]
    -- Two parts of one name, put first in either order, stay in that order.
    obtain ⟨rest, hrest⟩ : ∃ rest, (p :: q :: rest).Perm m.parts := by
      have hq' : q ∈ m.parts.erase p := (List.mem_erase_of_ne (Ne.symm hpq)).mpr hq
      exact ⟨_, (((List.perm_cons_erase hq').cons p).symm.trans (List.perm_cons_erase hp).symm)⟩
    have hleft := h _ hrest
    have hright := h _ ((List.Perm.swap p q rest).trans hrest)
    obtain ⟨-, -, hsorted, -⟩ := canonicalJson_eq_iff.mp (hleft.trans hright.symm)
    have hfirst := congrArg (fun l => (l.filter fun x => x.part = p.part).head?) hsorted
    simpa [filter_sortBy, Part.normalised, hname] using hfirst
  · intro h parts hperm
    refine canonicalJson_eq_iff.mpr ⟨rfl, rfl, ?_, rfl⟩
    apply sortBy_eq_of_perm (hperm.map _)
    simp only [List.mem_map]
    rintro _ ⟨p, hp, rfl⟩ _ ⟨q, hq, rfl⟩ hname
    exact h p (hperm.mem_iff.mp hp) q (hperm.mem_iff.mp hq) hname

/-- A text read as absent when it is empty, and the other way round. -/
def toggle : Option String → Option String
  | none => some ""
  | some s => if s = "" then none else some s

theorem getD_toggle (t : Option String) : (toggle t).getD "" = t.getD "" := by
  rcases t with _ | s
  · rfl
  · by_cases hs : s = "" <;> simp [toggle, hs]

theorem toggle_eq_self {t : Option String} (h : toggle t = t) : t.getD "" ≠ "" := by
  rcases t with _ | s
  · simp [toggle] at h
  · by_cases hs : s = ""
    · simp [toggle, hs] at h
    · exact hs

theorem Part.Complete.normalised_withEmpty {p : Part} (h : p.Complete) :
    p.withEmpty.normalised = p.normalised := by
  have hpresent : ∀ {t : Option String}, t.getD "" ≠ "" → some (t.getD "") = t := by
    rintro (_ | t) ht
    · exact absurd rfl ht
    · rfl
  rw [Part.normalised, Part.normalised, Part.withEmpty, hpresent h.1, hpresent h.2]

theorem Part.Complete.of_withEmpty {p q : Part} (h : p.Complete) (heq : q.withEmpty = p.withEmpty) :
    q.Complete := by
  simp only [Part.withEmpty, Part.mk.injEq, Option.some.injEq] at heq
  obtain ⟨-, -, -, -, hchecksum, hstoragePath, -⟩ := heq
  exact ⟨hchecksum ▸ h.1, hstoragePath ▸ h.2⟩

/-- Absent and empty texts are the same as far as there are none. -/
theorem absent_iff :
    (∀ parts, parts.map Part.withEmpty = m.parts.map Part.withEmpty →
      canonicalJson { m with parts } = canonicalJson m) ↔ ∀ p ∈ m.parts, p.Complete := by
  constructor
  · intro h p hp
    -- Every part with its texts toggled.
    let other (p : Part) : Part :=
      { p with checksum := toggle p.checksum, storagePath := toggle p.storagePath }
    have hmap : (m.parts.map other).map Part.withEmpty = m.parts.map Part.withEmpty := by
      rw [List.map_map]
      refine List.map_congr_left fun q _ => ?_
      simp [other, Part.withEmpty, getD_toggle]
    obtain ⟨-, -, hsorted, -⟩ := canonicalJson_eq_iff.mp (h _ hmap)
    have hother : ((sortBy Part.part m.parts).map other).map Part.normalised =
        (sortBy Part.part m.parts).map Part.normalised := by
      rw [map_sortBy Part.part Part.part (f := other) fun _ => rfl, map_normalised_sortBy, map_normalised_sortBy]
      exact hsorted
    rw [List.map_map] at hother
    have hp' := List.map_inj_left.mp hother p (mem_sortBy.mpr hp)
    simp only [Function.comp, other, Part.normalised, NormalisedPart.mk.injEq] at hp'
    exact ⟨toggle_eq_self hp'.1, toggle_eq_self hp'.2.2.2.2.2⟩
  · intro h parts hmap
    refine canonicalJson_eq_iff.mpr ⟨rfl, rfl, ?_, rfl⟩
    have hcomplete : ∀ q ∈ parts, q.Complete := by
      intro q hq
      obtain ⟨p, hp, heq⟩ := List.mem_map.mp (hmap ▸ List.mem_map_of_mem hq)
      exact (h p hp).of_withEmpty heq.symm
    congr 1
    calc parts.map Part.normalised
        = (parts.map Part.withEmpty).map Part.normalised := by
          rw [List.map_map]
          exact List.map_congr_left fun q hq => (hcomplete q hq).normalised_withEmpty.symm
      _ = (m.parts.map Part.withEmpty).map Part.normalised := by rw [hmap]
      _ = m.parts.map Part.normalised := by
          rw [List.map_map]
          exact List.map_congr_left fun p hp => (h p hp).normalised_withEmpty

/-- **The canonical form depends on what it should** exactly when every part is complete
and parts of one name are written alike. -/
theorem canonical_iff (m : Manifest) :
    Canonical m ↔
      (∀ p ∈ m.parts, p.Complete) ∧
        ∀ p ∈ m.parts, ∀ q ∈ m.parts, p.part = q.part → p.normalised = q.normalised := by
  constructor
  · intro h
    refine ⟨absent_iff.mp fun parts hmap => (h.absent parts hmap).1, ?_⟩
    exact order_iff.mp fun parts hperm => (h.order parts hperm).1
  · rintro ⟨hcomplete, hnames⟩
    have hchecksum : ∀ m', canonicalJson m' = canonicalJson m →
        ∀ hash, manifestChecksum hash m' = manifestChecksum hash m := by
      intro m' heq hash
      rw [manifestChecksum, manifestChecksum, heq]
    refine ⟨fun parts hperm => ?_, fun parts hmap => ?_, fun m' hne => canonicalJson_distinct hne⟩
    · have heq := order_iff.mpr hnames parts hperm
      exact ⟨heq, hchecksum _ heq⟩
    · have heq := absent_iff.mpr hcomplete parts hmap
      exact ⟨heq, hchecksum _ heq⟩

/-- An absent digest and an empty one are written differently, so a manifest with a part
that has not started has not the form it should. -/
theorem absent_and_empty : ¬ Canonical ⟨"id", 1, [Part.queued "media"], "t"⟩ := by
  intro h
  have hsame := (h.absent [{ Part.queued "media" with checksum := some "" }] rfl).1
  have hparts := (canonicalJson_eq_iff.mp hsame).2.2.1
  exact absurd hparts (by simp [sortBy, Part.queued, Part.normalised])

end Omnion.Backup
