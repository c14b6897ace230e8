import Mathlib.Data.List.Sort
import Mathlib.Data.String.Basic
import Omnion.Backup.Part

/-!
# Verifying a manifest

A verification reads the artifacts of a run back and compares them with the run's
manifest. `verify_manifest` looks each part that is done up among the observations,
and takes the first that carries its name: the part matches, does not match, or could
not be read back.

## What is proved

* `verifyManifest_correct_iff` — each part that is done gets one verdict, and the
  verification is clean when everything observed of every such part matches, unless a
  matching first observation of a part hides a later one that does not.
* `hidden_observation` — a part observed twice, the second time with other bytes,
  verifies clean.
-/

namespace Omnion.Backup

/-- What one part's artifact looked like when it was read again. -/
structure ObservedPart where
  part : String
  checksum : String
  /-- How many bytes the destination held. -/
  sizeBytes : ℤ

/-- What a verification found, as lists of part names. -/
structure Verification where
  /-- The recorded digest and size both match. -/
  matched : List String
  mismatched : List String
  /-- Recorded, but could not be read back at all. -/
  unreadable : List String
  unexpected : List String

/-- Whether nothing is wrong. -/
def Verification.isClean (v : Verification) : Bool :=
  v.mismatched.isEmpty && v.unreadable.isEmpty && v.unexpected.isEmpty

/-- Both the recorded size and the recorded digest are those observed. -/
def Part.Agrees (part : Part) (item : ObservedPart) : Prop :=
  part.sizeBytes = item.sizeBytes ∧ part.checksum = some item.checksum

instance (part : Part) (item : ObservedPart) : Decidable (part.Agrees item) :=
  inferInstanceAs (Decidable (_ ∧ _))

/-- One part of the manifest, added to what was found so far. -/
def verifyPart (observed : List ObservedPart) (v : Verification) (part : Part) : Verification :=
  -- A part that did not produce an artifact is not a missing artifact.
  if part.status ≠ .done then v
  else
    match observed.find? fun item => item.part = part.part with
    | none => { v with unreadable := v.unreadable ++ [part.part] }
    | some item =>
      if part.Agrees item then { v with matched := v.matched ++ [part.part] }
      else { v with mismatched := v.mismatched ++ [part.part] }

/-- Compare a manifest against what the destination holds. -/
def verifyManifest (manifest : Manifest) (observed : List ObservedPart) : Verification :=
  let unexpected :=
    (observed.filter fun item => !manifest.parts.any fun part => part.part = item.part).map (·.part)
  let v := manifest.parts.foldl (verifyPart observed) ⟨[], [], [], unexpected.insertionSort (· ≤ ·)⟩
  { v with
    matched := v.matched.insertionSort (· ≤ ·)
    mismatched := v.mismatched.insertionSort (· ≤ ·)
    unreadable := v.unreadable.insertionSort (· ≤ ·) }

/-! ### What a verification should find -/

/-- The verdict on a part. -/
inductive Verdict where
  | matched
  | mismatched
  | unreadable
  deriving DecidableEq

/-- The names of the parts that are done and have a verdict, one for each. -/
def namesWith (verdict : Part → Verdict) (parts : List Part) (d : Verdict) : List String :=
  (parts.filter fun p => p.status = .done ∧ verdict p = d).map (·.part)

/-- **What a verification is for**: every part that is done is found in one of the three
lists, and the verification is clean when every such part was observed, never with
another size or digest, and nothing else was. -/
structure Correct (manifest : Manifest) (observed : List ObservedPart) (v : Verification) : Prop where
  placed : ∃ verdict : Part → Verdict,
    v.matched.Perm (namesWith verdict manifest.parts .matched) ∧
      v.mismatched.Perm (namesWith verdict manifest.parts .mismatched) ∧
      v.unreadable.Perm (namesWith verdict manifest.parts .unreadable)
  clean : v.isClean = true ↔
    (∀ p ∈ manifest.parts, p.status = .done →
      (∃ item ∈ observed, item.part = p.part) ∧ ∀ item ∈ observed, item.part = p.part → p.Agrees item) ∧
      ∀ item ∈ observed, ∃ p ∈ manifest.parts, p.part = item.part

/-! ### What the code finds -/

/-- The verdict of the code: that of the first observation. -/
def firstVerdict (observed : List ObservedPart) (part : Part) : Verdict :=
  match observed.find? fun item => item.part = part.part with
  | none => .unreadable
  | some item => if part.Agrees item then .matched else .mismatched

variable {manifest : Manifest} {observed : List ObservedPart} {part : Part}

theorem firstVerdict_eq_matched :
    firstVerdict observed part = .matched ↔
      ∃ item, observed.find? (fun item => item.part = part.part) = some item ∧ part.Agrees item := by
  unfold firstVerdict
  cases observed.find? fun item => item.part = part.part with
  | none => simp
  | some item => simp

theorem foldl_verifyPart (observed : List ObservedPart) (parts : List Part) (v : Verification) :
    parts.foldl (verifyPart observed) v =
      { v with
        matched := v.matched ++ namesWith (firstVerdict observed) parts .matched
        mismatched := v.mismatched ++ namesWith (firstVerdict observed) parts .mismatched
        unreadable := v.unreadable ++ namesWith (firstVerdict observed) parts .unreadable } := by
  induction parts generalizing v with
  | nil => simp [namesWith]
  | cons p parts ih =>
    rw [List.foldl_cons, ih]
    by_cases hdone : p.status = .done
    · rcases hfind : observed.find? (fun item => item.part = p.part) with _ | item
      · simp [verifyPart, namesWith, firstVerdict, hdone, hfind]
      · by_cases hagrees : p.Agrees item <;>
          simp [verifyPart, namesWith, firstVerdict, hdone, hfind, hagrees]
    · simp [verifyPart, namesWith, hdone]

theorem namesWith_eq_nil {verdict : Part → Verdict} {parts : List Part} {d : Verdict} :
    namesWith verdict parts d = [] ↔ ∀ p ∈ parts, p.status = .done → verdict p ≠ d := by
  simp [namesWith]

theorem insertionSort_eq_nil {l : List String} : l.insertionSort (· ≤ ·) = [] ↔ l = [] := by
  rw [← List.length_eq_zero_iff, List.length_insertionSort, List.length_eq_zero_iff]

theorem verifyManifest_placed (manifest : Manifest) (observed : List ObservedPart) :
    (verifyManifest manifest observed).matched.Perm
        (namesWith (firstVerdict observed) manifest.parts .matched) ∧
      (verifyManifest manifest observed).mismatched.Perm
        (namesWith (firstVerdict observed) manifest.parts .mismatched) ∧
      (verifyManifest manifest observed).unreadable.Perm
        (namesWith (firstVerdict observed) manifest.parts .unreadable) := by
  simp only [verifyManifest, foldl_verifyPart, List.nil_append]
  exact ⟨List.perm_insertionSort _ _, List.perm_insertionSort _ _, List.perm_insertionSort _ _⟩

/-- The code finds nothing wrong when the first observations match and nothing else was
observed. -/
theorem isClean_verifyManifest :
    (verifyManifest manifest observed).isClean = true ↔
      (∀ p ∈ manifest.parts, p.status = .done → firstVerdict observed p = .matched) ∧
        ∀ item ∈ observed, ∃ p ∈ manifest.parts, p.part = item.part := by
  have hmatched : ∀ d : Verdict, d ≠ .mismatched → d ≠ .unreadable → d = .matched := by
    intro d
    cases d <;> decide
  have hunexpected : (observed.filter fun item => !manifest.parts.any fun part => part.part = item.part).map
      (·.part) = [] ↔ ∀ item ∈ observed, ∃ p ∈ manifest.parts, p.part = item.part := by simp
  simp only [Verification.isClean, verifyManifest, foldl_verifyPart, Bool.and_eq_true, List.isEmpty_iff,
    insertionSort_eq_nil, List.nil_append, namesWith_eq_nil, hunexpected]
  constructor
  · rintro ⟨⟨hmis, hun⟩, hknown⟩
    exact ⟨fun p hp hdone => hmatched _ (hmis p hp hdone) (hun p hp hdone), hknown⟩
  · rintro ⟨hall, hknown⟩
    refine ⟨⟨fun p hp hdone => ?_, fun p hp hdone => ?_⟩, hknown⟩
    · rw [hall p hp hdone]
      decide
    · rw [hall p hp hdone]
      decide

/-- A matching first observation of a part hides a later one of the same part that does
not match, where nothing else is wrong. -/
def Hides (manifest : Manifest) (observed : List ObservedPart) : Prop :=
  (∀ item ∈ observed, ∃ p ∈ manifest.parts, p.part = item.part) ∧
    (∀ p ∈ manifest.parts, p.status = .done →
      ∃ item, observed.find? (fun item => item.part = p.part) = some item ∧ p.Agrees item) ∧
    ∃ p ∈ manifest.parts, p.status = .done ∧ ∃ item ∈ observed, item.part = p.part ∧ ¬ p.Agrees item

/-- **A verification is correct** unless an observation is hidden behind another. -/
theorem verifyManifest_correct_iff (manifest : Manifest) (observed : List ObservedPart) :
    Correct manifest observed (verifyManifest manifest observed) ↔ ¬ Hides manifest observed := by
  constructor
  · rintro ⟨-, hclean⟩ ⟨hknown, hfirst, p, hp, hdone, item, hitem, hname, hagrees⟩
    have h := isClean_verifyManifest.mpr ⟨fun p hp hdone => firstVerdict_eq_matched.mpr (hfirst p hp hdone), hknown⟩
    exact hagrees ((hclean.mp h).1 p hp hdone |>.2 item hitem hname)
  · intro hhides
    refine ⟨⟨firstVerdict observed, verifyManifest_placed manifest observed⟩, ?_⟩
    rw [isClean_verifyManifest]
    constructor
    · rintro ⟨hmatched, hknown⟩
      refine ⟨fun p hp hdone => ?_, hknown⟩
      obtain ⟨item, hfind, -⟩ := firstVerdict_eq_matched.mp (hmatched p hp hdone)
      have hname : item.part = p.part := by simpa using List.find?_some hfind
      refine ⟨⟨item, List.mem_of_find?_eq_some hfind, hname⟩, fun x hx hxname => ?_⟩
      by_contra hagrees
      apply hhides
      exact ⟨hknown, fun p hp hdone => firstVerdict_eq_matched.mp (hmatched p hp hdone),
        p, hp, hdone, x, hx, hxname, hagrees⟩
    · rintro ⟨hall, hknown⟩
      refine ⟨fun p hp hdone => ?_, hknown⟩
      obtain ⟨⟨x, hx, hxname⟩, hagrees⟩ := hall p hp hdone
      rw [firstVerdict_eq_matched]
      have hsome : (observed.find? fun item => item.part = p.part).isSome :=
        List.find?_isSome.mpr ⟨x, hx, by simpa using hxname⟩
      obtain ⟨item, hfind⟩ := Option.isSome_iff_exists.mp hsome
      exact ⟨item, hfind, hagrees item (List.mem_of_find?_eq_some hfind) (by simpa using List.find?_some hfind)⟩

/-- A part observed twice, the second time with other bytes, verifies clean. -/
theorem hidden_observation :
    ¬ Correct ⟨"id", 1, [Part.done "media" 2 200 "bb" "m"], "t"⟩ [⟨"media", "bb", 200⟩, ⟨"media", "ff", 0⟩]
      (verifyManifest ⟨"id", 1, [Part.done "media" 2 200 "bb" "m"], "t"⟩
        [⟨"media", "bb", 200⟩, ⟨"media", "ff", 0⟩]) := by
  intro h
  obtain ⟨hparts, -⟩ := h.clean.mp (by decide)
  exact absurd ((hparts (Part.done "media" 2 200 "bb" "m") (by decide) rfl).2 ⟨"media", "ff", 0⟩ (by simp) rfl)
    (by decide)

end Omnion.Backup
