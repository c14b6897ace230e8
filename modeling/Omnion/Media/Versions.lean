import Mathlib.Logic.Function.Basic
import Omnion.Core.JsonText
import Omnion.Core.Text
import Omnion.Library.Run
import Omnion.Library.Table

/-!
# The version history of a file

`next_version` and `append_version` of `crates/media/src/versions.rs`, and the replace and restore calls of
`routes/media_versions.rs`: a call takes the next version number under the lock of the file's row, puts its bytes
under a key that carries the number, appends the version and makes it the current one.

## The model

One file, with any number of calls next to each other, one statement or store operation a step. A statement reads the
rows committed when it begins: `next_version` may read its number, wait for the lock and go on with the number it has
read. The lock is held until the transaction ends; an error of the database ends it at once, and a replace cleans up
its object after that. A call can be dropped between any two of its steps. Versions are rows with the bytes they were
created from, which the database does not have.

## What is proved

* `run_versions` — in every run whose steps are `Orderly` no two versions share a number or a key, each version's key
  holds the bytes it was created from, and the current key is that of the highest version.
* `stale_number` — a call that waits for the lock takes the number of the one it waits for, overwrites its object and
  deletes it.

## Honest scope

The columns of a version beside its number, key and content type are left out, and so are the bounds of 31 bits on
numbers, the event and the audit entry. A put writes its object whole.
-/

namespace Omnion.Media

open Transition Printing
open Text (rsplitOnce)

/-- The bytes of an object. -/
abbrev Content := List UInt8

/-- An identifier in the hyphenated form. -/
def hyphenated (id : Uuid) : String :=
  let digits := (Text.hex id).toList
  let padded := List.replicate (32 - digits.length) '0' ++ digits
  String.ofList (padded.take 8 ++ '-' :: (padded.drop 8).take 4 ++ '-' :: (padded.drop 12).take 4 ++
    '-' :: (padded.drop 16).take 4 ++ '-' :: padded.drop 20)

/-- Whether an extension is usable. -/
def usable (extension : List Char) : Bool := extension ≠ [] ∧ extension.length ≤ 8 ∧ extension.all (·.isAlphanum)

/-- The extension of a file name, when it is a usable one. -/
def extensionOf (filename : String) : Option String :=
  match rsplitOnce '.' filename.toList with
  | some (_, extension) => if usable extension then some (Text.toLowercase (String.ofList extension)) else none
  | none => none

/-- The extension of an already sanitised file name, when it carries a usable one. A name that is only an extension has
none. -/
def uploadExtensionOf (filename : String) : Option String :=
  match rsplitOnce '.' filename.toList with
  | some (stem, extension) =>
    if stem ≠ [] ∧ usable extension then some (Text.toLowercase (String.ofList extension)) else none
  | none => none

/-- The extension a content type implies, for a name that carries none. -/
def extensionOfType (contentType : String) : Option String :=
  [("image/png", "png"), ("image/jpeg", "jpg"), ("image/gif", "gif"), ("image/webp", "webp"), ("image/avif", "avif"),
    ("video/mp4", "mp4"), ("video/webm", "webm"), ("audio/mpeg", "mp3"), ("audio/ogg", "ogg"), ("audio/wav", "wav"),
    ("application/pdf", "pdf"), ("text/plain", "txt")].lookup contentType

/-- The file the calls are about. -/
structure FileId where
  siteId : Uuid
  mediaId : Uuid

/-- The directory of a file's objects. -/
def FileId.directory (file : FileId) : String := "sites/" ++ hyphenated file.siteId ++ "/" ++ hyphenated file.mediaId

/-- Object key of an upload. -/
def objectKey (file : FileId) (filename : String) : String :=
  match uploadExtensionOf filename with
  | some extension => file.directory ++ "." ++ extension
  | none => file.directory

/-- Object key of one version. -/
def versionKey (file : FileId) (version : ℕ) (filename contentType : String) : String :=
  match (extensionOf filename).or (extensionOfType contentType) with
  | some extension =>
    if extension ≠ "" then file.directory ++ "/v" ++ toString version ++ "." ++ extension
    else file.directory ++ "/v" ++ toString version
  | none => file.directory ++ "/v" ++ toString version

/-! ### Keys -/

section Keys

variable {file : FileId} {m n : ℕ} {filename filename' contentType contentType' : String}

/-- A key is the directory, the number and a suffix that begins with no digit. -/
theorem toList_versionKey (file : FileId) (n : ℕ) (filename contentType : String) :
    ∃ suffix, Starts (fun c => ¬ JsonText.IsNumeral c) suffix ∧
      (versionKey file n filename contentType).toList =
        file.directory.toList ++ ('/' :: 'v' :: (JsonText.int n ++ suffix)) := by
  have hnumber : (toString n).toList = JsonText.int n := JsonText.toList_toString n
  have hdot : ¬ JsonText.IsNumeral '.' := by
    rintro (h | h)
    · exact absurd h (by decide)
    · exact absurd h (by decide)
  have hv : "/v".toList = ['/', 'v'] := rfl
  have hmark : ".".toList = ['.'] := rfl
  rw [versionKey]
  split
  · rename_i extension _
    split_ifs
    · refine ⟨'.' :: extension.toList, (starts_cons ..).mpr hdot, ?_⟩
      simp only [String.toList_append, hnumber, hv, hmark, List.append_assoc, List.cons_append, List.nil_append]
    · refine ⟨[], starts_nil _, ?_⟩
      simp only [String.toList_append, hnumber, hv, List.append_assoc, List.cons_append,
        List.nil_append, List.append_nil]
  · refine ⟨[], starts_nil _, ?_⟩
    simp only [String.toList_append, hnumber, hv, List.append_assoc, List.cons_append, List.nil_append, List.append_nil]

/-- **A key tells its version's number.** -/
theorem versionKey_inj (h : versionKey file m filename contentType = versionKey file n filename' contentType') :
    m = n := by
  obtain ⟨suffix, hstarts, heq⟩ := toList_versionKey file m filename contentType
  obtain ⟨suffix', hstarts', heq'⟩ := toList_versionKey file n filename' contentType'
  rw [h, heq', List.append_cancel_left_eq] at heq
  have hnumbers := (List.cons.inj (List.cons.inj heq).2).2
  exact (Int.ofNat.inj (JsonText.readable_int _ _ _ _ hstarts' hstarts hnumbers).1).symm

theorem objectKey_ne_versionKey : objectKey file filename ≠ versionKey file n filename' contentType' := by
  intro h
  obtain ⟨suffix, -, heq⟩ := toList_versionKey file n filename' contentType'
  have hupload : ∃ suffix, Starts (· ≠ '/') suffix ∧ (objectKey file filename).toList
    = file.directory.toList ++ suffix := by
    rw [objectKey]
    split
    · rename_i extension _
      refine ⟨'.' :: extension.toList, (starts_cons ..).mpr (by decide), ?_⟩
      have hmark : ".".toList = ['.'] := rfl
      simp only [String.toList_append, hmark, List.append_assoc, List.cons_append, List.nil_append]
    · exact ⟨[], starts_nil _, (List.append_nil _).symm⟩
  obtain ⟨suffix', hstarts, heq'⟩ := hupload
  rw [h, heq, List.append_cancel_left_eq] at heq'
  rw [← heq', starts_cons] at hstarts
  exact hstarts rfl

end Keys

/-! ### Calls -/

/-- A version of the file, with the bytes it was created from. -/
structure FileVersion where
  version : ℕ
  storageKey : String
  contentType : String
  content : Content

/-- What a call makes a version of. -/
inductive Source where
  | upload (bytes : Content)
  /-- A restore copies those of a version. -/
  | version (wanted : FileVersion)

/-- A replace or a restore. -/
structure Call where
  filename : String
  contentType : String
  source : Source

/-- The bytes the new version is created from. -/
def Call.content (call : Call) : Content :=
  match call.source with
  | .upload bytes => bytes
  | .version wanted => wanted.content

/-- How far a call is. -/
inductive CallStage where
  | idle
  /-- It has what it needs, -/
  | ready (call : Call)
  /-- has read the next number and waits for the lock, -/
  | waiting (call : Call) (number : ℕ)
  /-- has the lock, -/
  | numbered (call : Call) (number : ℕ)
  /-- has the bytes, -/
  | fetched (call : Call) (number : ℕ) (bytes : Content)
  /-- has put them, -/
  | stored (call : Call) (number : ℕ)
  /-- has appended its version. -/
  | appended (row : FileVersion)
  /-- Its version was refused, and its object is still there. -/
  | cleaning (key : String)
  | ended

/-- The file, its objects and the calls. -/
structure Versioning where
  versions : Table FileVersion FileVersion.version
  /-- Object key of the current bytes. -/
  storageKey : String
  objects : String → Option Content
  /-- Which call has the lock of the file's row. -/
  lock : Option ℕ
  calls : ℕ → CallStage

/-- What happens. -/
inductive VersionEvent where
  /-- Call `c` is a replace, -/
  | replace (c : ℕ) (filename contentType : String) (bytes : Content)
  /-- or a restore of a version. -/
  | restore (c : ℕ) (filename : String) (version : ℕ)
  /-- `next_version` begins, -/
  | nextVersion (c : ℕ)
  /-- and gets the lock. -/
  | lock (c : ℕ)
  | read (c : ℕ)
  | put (c : ℕ)
  /-- `append_version`, which the database may refuse. -/
  | append (c : ℕ) (accepted : Bool)
  /-- A replace whose version was refused deletes its object. -/
  | clean (c : ℕ)
  | commit (c : ℕ)
  /-- The call is dropped. -/
  | drop (c : ℕ)

/-- Whether the call has the lock at this stage. -/
def CallStage.locked : CallStage → Bool
  | .numbered .. | .fetched .. | .stored .. | .appended .. => true
  | _ => false

namespace Versioning

/-- A file nobody calls. -/
def init (versions : Table FileVersion FileVersion.version) (storageKey : String) (objects : String → Option Content) :
    Versioning :=
  ⟨versions, storageKey, objects, none, fun _ => .idle⟩

/-- `coalesce((select max(version) ..), 0) + 1`. -/
def next (s : Versioning) : ℕ := (s.versions.rows.map (·.version)).foldr max 0 + 1

/-- Call `c` goes on. -/
def move (s : Versioning) (c : ℕ) (stage : CallStage) : Versioning :=
    { s with calls := Function.update s.calls c stage }

/-- Call `c` goes on without the lock. -/
def release (s : Versioning) (c : ℕ) (stage : CallStage) : Versioning := { s.move c stage with lock := none }

/-- The bytes a call puts: its own, or those it gets. -/
def bytesOf (s : Versioning) (call : Call) : Option Content :=
  match call.source with
  | .upload bytes => some bytes
  | .version wanted => s.objects wanted.storageKey

def step (file : FileId) (s : Versioning) : VersionEvent → Option Versioning
  | .replace c filename contentType bytes =>
    match s.calls c with
    | .idle => some (s.move c (.ready ⟨filename, contentType, .upload bytes⟩))
    | _ => none
  | .restore c filename version =>
    match s.calls c with
    | .idle =>
      match s.versions.find? version with
      | some wanted => some (s.move c (.ready ⟨filename, wanted.contentType, .version wanted⟩))
      | none => some (s.move c .ended)
    | _ => none
  | .nextVersion c =>
    match s.calls c with
    | .ready call => some (s.move c (.waiting call s.next))
    | _ => none
  | .lock c =>
    match s.calls c with
    | .waiting call number =>
      if s.lock = none then some { s.move c (.numbered call number) with lock := some c } else none
    | _ => none
  | .read c =>
    match s.calls c with
    | .numbered call number =>
      match s.bytesOf call with
      | some bytes => some (s.move c (.fetched call number bytes))
      | none => some (s.release c .ended)
    | _ => none
  | .put c =>
    match s.calls c with
    | .fetched call number bytes =>
      let key := versionKey file number call.filename call.contentType
      some { s.move c (.stored call number) with objects := Function.update s.objects key (some bytes) }
    | _ => none
  | .append c accepted =>
    match s.calls c with
    | .stored call number =>
      let key := versionKey file number call.filename call.contentType
      if accepted ∧ s.versions.find? number = none then
        some (s.move c (.appended ⟨number, key, call.contentType, call.content⟩))
      else
        match call.source with
        | .upload _ => some (s.release c (.cleaning key))
        | .version _ => some (s.release c .ended)
    | _ => none
  | .clean c =>
    match s.calls c with
    | .cleaning key => some { s.move c .ended with objects := Function.update s.objects key none }
    | _ => none
  | .commit c =>
    match s.calls c with
    | .appended row =>
      (s.versions.insert? row).map fun versions => { s.release c .ended with versions, storageKey := row.storageKey }
    | _ => none
  | .drop c =>
    match s.calls c with
    | .idle => none
    | stage => some (if stage.locked then s.release c .ended else s.move c .ended)

/-- **The history is right**: no two versions share a number or a key, the key of each holds the bytes it was created
from, and the current key is that of the highest version. -/
structure Sound (s : Versioning) : Prop where
  numbers : (s.versions.rows.map (·.version)).Nodup
  keys : (s.versions.rows.map (·.storageKey)).Nodup
  objects : ∀ row ∈ s.versions, s.objects row.storageKey = some row.content
  current : ∀ row ∈ s.versions, (∀ other ∈ s.versions, other.version ≤ row.version) → s.storageKey = row.storageKey

end Versioning

/-- The key a call has put its bytes under. -/
def CallStage.uploaded (file : FileId) : CallStage → Option String
  | .stored call number => some (versionKey file number call.filename call.contentType)
  | .appended row => some row.storageKey
  | _ => none

/-- **Calls that keep out of each other's way.** When a call commits, no other that has read its number and waits for
the lock will put its bytes under the same key; and when a call puts its bytes, no other has still to clean up the same
key. -/
def Versioning.Orderly (file : FileId) (s : Versioning) : VersionEvent → Prop
  | .commit c => ∀ row, s.calls c = .appended row → ∀ d call number, s.calls d = .waiting call number →
      versionKey file number call.filename call.contentType ≠ row.storageKey
  | .put c => ∀ call number bytes, s.calls c = .fetched call number bytes → ∀ d key, s.calls d = .cleaning key →
      versionKey file number call.filename call.contentType ≠ key
  | _ => True

/-! ### What the steps keep -/

/-- A version's key is its own: of its number, or of the upload. -/
def FileVersion.Own (file : FileId) (row : FileVersion) : Prop :=
  (∃ filename contentType, row.storageKey = versionKey file row.version filename contentType) ∨
    (row.version = 1 ∧ ∃ filename, row.storageKey = objectKey file filename)

section Own

variable {file : FileId} {row other : FileVersion} {n : ℕ} {filename contentType : String}

theorem FileVersion.Own.version_eq (h : row.Own file) (hkey : row.storageKey = versionKey file n filename contentType) :
    row.version = n := by
  rcases h with ⟨_, _, hown⟩ | ⟨-, _, hown⟩
  · exact versionKey_inj (hown.symm.trans hkey)
  · exact absurd (hown.symm.trans hkey) objectKey_ne_versionKey

theorem FileVersion.Own.inj (h : row.Own file) (hother : other.Own file) (hkey : row.storageKey = other.storageKey) :
    row.version = other.version := by
  rcases hother with ⟨_, _, hown⟩ | ⟨hone, _, hown⟩
  · exact h.version_eq (hkey.trans hown)
  · rcases h with ⟨_, _, hown'⟩ | ⟨hone', -⟩
    · exact absurd (hown.symm.trans (hkey.symm.trans hown')) objectKey_ne_versionKey
    · rw [hone, hone']

end Own

namespace Versioning

variable {file : FileId} {s t : Versioning} {c d : ℕ} {stage : CallStage} {call : Call} {number : ℕ} {row : FileVersion}
  {key : String} {e : VersionEvent} {es : List VersionEvent}

/-- No version has the key. -/
def Free (s : Versioning) (key : String) : Prop := ∀ row ∈ s.versions, row.storageKey ≠ key

/-- A number that was read is the next one, or some version has it. -/
def Read (s : Versioning) (number : ℕ) : Prop := number = s.next ∨ ∃ row ∈ s.versions, row.version = number

/-- What a call is for: a restore, a version of the file. -/
def For (s : Versioning) (call : Call) : Prop := ∀ wanted, call.source = .version wanted → wanted ∈ s.versions

/-- What holds of a call that has a number: no version has the key it will put its bytes under. -/
structure Planned (file : FileId) (s : Versioning) (call : Call) (number : ℕ) : Prop where
  source : s.For call
  read : s.Read number
  free : s.Free (versionKey file number call.filename call.contentType)

/-- What holds of a version that is appended, before it is committed. -/
structure Fresh (file : FileId) (s : Versioning) (row : FileVersion) : Prop where
  own : row.Own file
  next : row.version = s.next
  free : s.Free row.storageKey

/-- What holds of every stage. -/
def Fine (file : FileId) (s : Versioning) : CallStage → Prop
  | .ready call => s.For call
  | .waiting call number => s.Planned file call number
  | .numbered call number => s.Planned file call number
  | .fetched call number bytes => s.Planned file call number ∧ bytes = call.content
  | .stored call number =>
    s.Planned file call number ∧ s.objects (versionKey file number call.filename call.contentType) = some call.content
  | .appended row => s.Fresh file row ∧ s.objects row.storageKey = some row.content
  | .cleaning key => s.Free key
  | _ => True

/-- **What holds of every state.** -/
structure Inv (file : FileId) (s : Versioning) : Prop where
  own : ∀ row ∈ s.versions, row.Own file
  objects : ∀ row ∈ s.versions, s.objects row.storageKey = some row.content
  current : ∀ row ∈ s.versions, (∀ other ∈ s.versions, other.version ≤ row.version) → s.storageKey = row.storageKey
  locked : ∀ d, (s.calls d).locked = true → s.lock = some d
  fine : ∀ d, s.Fine file (s.calls d)
  /-- What has to be cleaned up is of nobody else. -/
  apart : ∀ d d' key, s.calls d = .cleaning key → (s.calls d').uploaded file ≠ some key

theorem calls_move_self : (s.move c stage).calls c = stage := Function.update_self ..

theorem calls_move_of_ne (h : d ≠ c) : (s.move c stage).calls d = s.calls d := Function.update_of_ne h ..

theorem version_lt_next (h : row ∈ s.versions) : row.version < s.next := by
  have hle : ∀ {l : List ℕ} {n : ℕ}, n ∈ l → n ≤ l.foldr max 0 := by
    intro l
    induction l with
    | nil => exact fun hn => absurd hn List.not_mem_nil
    | cons m l ih =>
      intro n hn
      rcases List.mem_cons.mp hn with rfl | hn
      · exact Nat.le_max_left ..
      · exact (ih hn).trans (Nat.le_max_right ..)
  exact Nat.lt_succ_of_le (hle (List.mem_map.mpr ⟨row, h, rfl⟩))

theorem Inv.planned (h : s.Inv file) (hsource : s.For call) : s.Planned file call s.next := by
  refine ⟨hsource, .inl rfl, fun row hrow hkey => ?_⟩
  exact absurd ((h.own row hrow).version_eq hkey) (version_lt_next hrow).ne

theorem Fine.frame (h : s.Fine file stage) (hversions : t.versions = s.versions)
    (hobjects : ∀ key, stage.uploaded file = some key → t.objects key = s.objects key) : t.Fine file stage := by
  have hnext : t.next = s.next := by rw [next, next, hversions]
  have hfree : ∀ {key}, s.Free key → t.Free key := fun hfree => by rwa [Free, hversions]
  have hfor : ∀ {call}, s.For call → t.For call := fun hfor => by rwa [For, hversions]
  have hplanned : ∀ {call number}, s.Planned file call number → t.Planned file call number := fun hplanned =>
    ⟨hfor hplanned.source, by rw [Read, hnext, hversions]; exact hplanned.read, hfree hplanned.free⟩
  cases stage with
  | ready call => exact hfor h
  | waiting call number => exact hplanned h
  | numbered call number => exact hplanned h
  | fetched call number bytes => exact ⟨hplanned h.1, h.2⟩
  | stored call number => exact ⟨hplanned h.1, (hobjects _ rfl).trans h.2⟩
  | appended row => exact ⟨⟨h.1.own, h.1.next.trans hnext.symm, hfree h.1.free⟩, (hobjects _ rfl).trans h.2⟩
  | cleaning key => exact hfree h
  | _ => trivial

/-- One call goes on. The objects of the versions and of the other calls stay, and the lock is nobody else's. -/
theorem Inv.turn {lock : Option ℕ} {objects : String → Option Content} (h : s.Inv file)
    (hfine : ({ s.move c stage with lock, objects } : Versioning).Fine file stage)
    (hlocked : stage.locked = true → lock = some c) (hothers : ∀ d, d ≠ c → (s.calls d).locked = true → lock = some d)
    (hcleaning : ∀ key, stage = .cleaning key → ∀ d, d ≠ c → (s.calls d).uploaded file ≠ some key)
    (huploaded : ∀ key, stage.uploaded file = some key → ∀ d, d ≠ c → s.calls d ≠ .cleaning key)
    (hversions : ∀ row ∈ s.versions, objects row.storageKey = s.objects row.storageKey)
    (hobjects : ∀ d, d ≠ c → ∀ key, (s.calls d).uploaded file = some key → objects key = s.objects key) :
    ({ s.move c stage with lock, objects } : Versioning).Inv file := by
  have hself : ({ s.move c stage with lock, objects } : Versioning).calls c = stage := calls_move_self
  have hother : ∀ {d}, d ≠ c → ({ s.move c stage with lock, objects } : Versioning).calls d = s.calls
    d := calls_move_of_ne
  refine ⟨h.own, fun row hrow => (hversions row hrow).trans (h.objects row hrow), h.current,
    fun d hd => ?_, fun d => ?_,
    fun d d' key hd => ?_⟩
  · by_cases hdc : d = c
    · rw [hdc] at hd ⊢
      exact hlocked (hself ▸ hd)
    · exact hothers d hdc (hother hdc ▸ hd)
  · by_cases hdc : d = c
    · rw [hdc, hself]
      exact hfine
    · rw [hother hdc]
      exact (h.fine d).frame rfl (hobjects d hdc)
  · by_cases hdc : d = c
    · rw [hdc, hself] at hd
      by_cases hdc' : d' = c
      · rw [hdc', hself, hd]
        exact (Option.some_ne_none key).symm
      · rw [hother hdc']
        exact hcleaning key hd d' hdc'
    · rw [hother hdc] at hd
      by_cases hdc' : d' = c
      · rw [hdc', hself]
        exact fun hkey => huploaded key hkey d hdc hd
      · rw [hother hdc']
        exact h.apart d d' key hd

theorem Inv.move (h : s.Inv file) (hfine : s.Fine file stage)
    (hlocked : stage.locked = true → (s.calls c).locked = true)
    (hcleaning : ∀ key, stage ≠ .cleaning key)
    (huploaded : ∀ key, stage.uploaded file = some key → (s.calls c).uploaded file = some key) :
    (s.move c stage).Inv file :=
  h.turn (hfine.frame rfl fun _ _ => rfl) (fun hstage => h.locked c (hlocked hstage)) (fun d _ => h.locked d)
    (fun key hstage => absurd hstage (hcleaning key)) (fun key hkey d _ hd => h.apart d c key hd (huploaded key hkey))
    (fun _ _ => rfl) fun _ _ _ _ => rfl

theorem locked_of_uploaded (h : stage.uploaded file = some key) : stage.locked = true := by
  cases stage <;> first | rfl | cases h

theorem Inv.outside (h : s.Inv file) (hfine : s.Fine file stage) (hstage : stage.locked = false)
    (hcleaning : ∀ key, stage ≠ .cleaning key) : (s.move c stage).Inv file := by
  have hnot : stage.locked ≠ true := ne_true_of_eq_false hstage
  exact h.move hfine (fun hlocked => absurd hlocked hnot) hcleaning fun key hkey =>
    absurd (locked_of_uploaded hkey) hnot

theorem Inv.exclusive (h : s.Inv file) (hc : (s.calls c).locked = true) (hd : (s.calls d).locked = true) : d = c :=
  Option.some.inj ((h.locked d hd).symm.trans (h.locked c hc))

theorem Inv.release (h : s.Inv file) (hc : (s.calls c).locked = true) (hstage : stage.locked = false)
    (hfine : s.Fine file stage)
    (hcleaning : ∀ key, stage = .cleaning key → ∀ d, d ≠ c → (s.calls d).uploaded file ≠ some key)
    (huploaded : stage.uploaded file = none) : (s.release c stage).Inv file := by
  refine h.turn (hfine.frame rfl fun _ _ => rfl) (fun hlocked => ?_)
    (fun d hdc hd => absurd (h.exclusive hc hd) hdc) hcleaning
    (fun key hkey => ?_) (fun _ _ => rfl) fun _ _ _ _ => rfl
  · rw [hstage] at hlocked
    cases hlocked
  · rw [huploaded] at hkey
    cases hkey

theorem Inv.lock (h : s.Inv file) (hstage : s.calls c = .waiting call number) (hnone : s.lock = none) :
    ({ s.move c (.numbered call number) with lock := some c } : Versioning).Inv file := by
  have hfine := h.fine c
  rw [hstage] at hfine
  have hplanned : s.Fine file (.numbered call number) := hfine
  refine h.turn (hplanned.frame rfl fun _ _ => rfl) (fun _ => rfl) (fun d _ hd => ?_) (fun key hstage => ?_)
    (fun key hkey => ?_) (fun _ _ => rfl) fun _ _ _ _ => rfl
  · rw [h.locked d hd] at hnone
    cases hnone
  · cases hstage
  · cases hkey

theorem Inv.put {bytes : Content} (h : s.Inv file) (hstage : s.calls c = .fetched call number bytes)
    (hok : s.Orderly file (.put c)) :
    ({ s.move c (.stored call number) with
      objects := Function.update s.objects (versionKey file number call.filename call.contentType) (some bytes) } :
        Versioning).Inv file := by
  have hfine := h.fine c
  rw [hstage] at hfine
  obtain ⟨hplanned, hbytes⟩ := hfine
  have hc : (s.calls c).locked = true := by rw [hstage]; rfl
  refine h.turn ⟨⟨hplanned.source, hplanned.read, hplanned.free⟩, ?_⟩ (fun _ => h.locked c hc) (fun d _ => h.locked d)
    (fun key hstage => ?_) (fun key hkey d _ hd => ?_) (fun row hrow => ?_) fun d hdc key hkey => ?_
  · rw [← hbytes]
    exact Function.update_self ..
  · cases hstage
  · exact hok call number bytes hstage d key hd (Option.some.inj hkey)
  · exact Function.update_of_ne (hplanned.free row hrow) ..
  · exact absurd (h.exclusive hc (locked_of_uploaded hkey)) hdc

theorem Inv.clean (h : s.Inv file) (hstage : s.calls c = .cleaning key) :
    ({ s.move c .ended with objects := Function.update s.objects key none } : Versioning).Inv file := by
  have hfine := h.fine c
  rw [hstage] at hfine
  refine h.turn trivial (fun hlocked => ?_) (fun d _ => h.locked d) (fun key hstage => ?_) (fun key hkey => ?_)
    (fun row hrow => Function.update_of_ne (hfine row hrow) ..) fun d _ key' hkey' => Function.update_of_ne ?_ ..
  · cases hlocked
  · cases hstage
  · cases hkey
  · rintro rfl
    exact h.apart c d key' hstage hkey'

theorem Inv.commit {versions : Table FileVersion FileVersion.version} (h : s.Inv file)
    (hstage : s.calls c = .appended row)
    (hok : s.Orderly file (.commit c)) (hinsert : s.versions.insert? row = some versions) :
    ({ s.release c .ended with versions, storageKey := row.storageKey } : Versioning).Inv file := by
  have hfine := h.fine c
  rw [hstage] at hfine
  obtain ⟨hfresh, hobject⟩ := hfine
  have hc : (s.calls c).locked = true := by rw [hstage]; rfl
  have hmem : ∀ other, other ∈ versions ↔ other ∈ s.versions ∨ other = row := fun other => Table.mem_insert? hinsert
  have hfree : ∀ {key}, s.Free key → row.storageKey ≠ key → ∀ other ∈ versions, other.storageKey ≠ key := by
    intro key hfree hne other hother
    rcases (hmem other).mp hother with hold | rfl
    · exact hfree other hold
    · exact hne
  have hother : ∀ {d}, d ≠ c → ({ s.release c .ended with versions, storageKey := row.storageKey } : Versioning).calls d
    =
      s.calls d := calls_move_of_ne
  have hself : ({ s.release c .ended with versions, storageKey := row.storageKey } : Versioning).calls c = .ended :=
    calls_move_self
  have hunlocked : ∀ {d}, d ≠ c → (s.calls d).locked = false := fun hdc =>
    eq_false_of_ne_true fun hd => hdc (h.exclusive hc hd)
  refine ⟨fun other hother => ?_, fun other hother => ?_, fun other hother hhighest => ?_, fun d hd => ?_, fun d => ?_,
    fun d d' key hd => ?_⟩
  · rcases (hmem other).mp hother with hold | rfl
    · exact h.own other hold
    · exact hfresh.own
  · rcases (hmem other).mp hother with hold | rfl
    · exact h.objects other hold
    · exact hobject
  · -- the new version is the highest
    rcases (hmem other).mp hother with hold | rfl
    · have hle := hhighest row ((hmem row).mpr (.inr rfl))
      rw [hfresh.next] at hle
      exact absurd (version_lt_next hold) (not_lt.mpr hle)
    · rfl
  · by_cases hdc : d = c
    · rw [hdc, hself] at hd
      cases hd
    · rw [hother hdc, hunlocked hdc] at hd
      cases hd
  · by_cases hdc : d = c
    · rw [hdc, hself]
      trivial
    · rw [hother hdc]
      have hfine := h.fine d
      have hnot := hunlocked hdc
      cases hd : s.calls d with
      | ready call =>
        rw [hd] at hfine
        exact fun wanted hwanted => (hmem wanted).mpr (.inl (hfine wanted hwanted))
      | waiting call number =>
        rw [hd] at hfine
        refine ⟨fun wanted hwanted => (hmem wanted).mpr (.inl (hfine.source wanted hwanted)), ?_,
          hfree hfine.free (hok row hstage d call number hd).symm⟩
        rcases hfine.read with hnext | ⟨other, hmemOther, hnumber⟩
        · exact .inr ⟨row, (hmem row).mpr (.inr rfl), hfresh.next.trans hnext.symm⟩
        · exact .inr ⟨other, (hmem other).mpr (.inl hmemOther), hnumber⟩
      | cleaning key =>
        rw [hd] at hfine
        refine hfree hfine fun hkey => h.apart d c key hd ?_
        rw [hstage, ← hkey]
        rfl
      | idle => trivial
      | ended => trivial
      | _ =>
        rw [hd] at hnot
        cases hnot
  · have hdc : d ≠ c := by
      rintro rfl
      rw [hself] at hd
      cases hd
    rw [hother hdc] at hd
    by_cases hdc' : d' = c
    · rw [hdc', hself]
      exact (Option.some_ne_none key).symm
    · rw [hother hdc']
      exact h.apart d d' key hd

/-- A call appends its version, or the database refuses it. -/
theorem Inv.append {accepted : Bool} (h : s.Inv file) (hstep : step file s (.append c accepted) = some t) :
    t.Inv file := by
  simp only [step] at hstep
  split at hstep
  · rename_i call number hstage
    have hfine := h.fine c
    rw [hstage] at hfine
    obtain ⟨hplanned, hobject⟩ := hfine
    have hc : (s.calls c).locked = true := by rw [hstage]; rfl
    split_ifs at hstep with hnew
    · cases hstep
      -- no version has the number, so it still is the next one
      have hnext : number = s.next := by
        rcases hplanned.read with hnext | ⟨row, hrow, hnumber⟩
        · exact hnext
        · exact absurd hnumber (Table.find?_eq_none.mp hnew.2 row hrow)
      refine h.move ⟨⟨.inl ⟨_, _, rfl⟩, hnext, hplanned.free⟩, hobject⟩ (fun _ => hc) (fun _ => CallStage.noConfusion)
        fun key hkey => ?_
      rw [hstage]
      exact hkey
    · split at hstep
      · cases hstep
        refine h.release hc rfl hplanned.free (fun key _ d hdc hkey => ?_) rfl
        exact hdc (h.exclusive hc (locked_of_uploaded hkey))
      · cases hstep
        exact h.release hc rfl trivial (fun _ => CallStage.noConfusion) rfl
  · cases hstep

/-- **What the steps keep.** -/
theorem Inv.step (h : s.Inv file) (hok : s.Orderly file e) (hstep : step file s e = some t) : t.Inv file := by
  cases e with
  | replace c filename contentType bytes =>
    simp only [Versioning.step] at hstep
    split at hstep
    · cases hstep
      refine h.outside (fun wanted hwanted => ?_) rfl fun _ => CallStage.noConfusion
      cases hwanted
    · cases hstep
  | restore c filename version =>
    simp only [Versioning.step] at hstep
    split at hstep
    · split at hstep
      · rename_i wanted hwanted
        cases hstep
        refine h.outside (fun other hother => ?_) rfl fun _ => CallStage.noConfusion
        obtain rfl := Source.version.inj hother
        exact (Table.find?_eq_some.mp hwanted).1
      · cases hstep
        exact h.outside trivial rfl fun _ => CallStage.noConfusion
    · cases hstep
  | nextVersion c =>
    simp only [Versioning.step] at hstep
    split at hstep
    · rename_i call hstage
      cases hstep
      have hfine := h.fine c
      rw [hstage] at hfine
      exact h.outside (h.planned hfine) rfl fun _ => CallStage.noConfusion
    · cases hstep
  | lock c =>
    simp only [Versioning.step] at hstep
    split at hstep
    · rename_i call number hstage
      split_ifs at hstep with hnone
      cases hstep
      exact h.lock hstage hnone
    · cases hstep
  | read c =>
    simp only [Versioning.step] at hstep
    split at hstep
    · rename_i call number hstage
      have hfine := h.fine c
      rw [hstage] at hfine
      have hc : (s.calls c).locked = true := by rw [hstage]; rfl
      split at hstep
      · rename_i bytes hbytes
        cases hstep
        refine h.move ⟨hfine, ?_⟩ (fun _ => hc) (fun _ => CallStage.noConfusion) fun key hkey => by cases hkey
        cases hsource : call.source with
        | upload own =>
          simp only [bytesOf, hsource, Option.some.injEq] at hbytes
          rw [← hbytes, Call.content, hsource]
        | version wanted =>
          simp only [bytesOf, hsource, h.objects wanted (hfine.source wanted hsource), Option.some.injEq] at hbytes
          rw [← hbytes, Call.content, hsource]
      · cases hstep
        exact h.release hc rfl trivial (fun _ => CallStage.noConfusion) rfl
    · cases hstep
  | put c =>
    simp only [Versioning.step] at hstep
    split at hstep
    · rename_i call number bytes hstage
      cases hstep
      exact h.put hstage hok
    · cases hstep
  | append c accepted => exact h.append hstep
  | clean c =>
    simp only [Versioning.step] at hstep
    split at hstep
    · rename_i key hstage
      cases hstep
      exact h.clean hstage
    · cases hstep
  | commit c =>
    simp only [Versioning.step] at hstep
    split at hstep
    · rename_i row hstage
      obtain ⟨versions, hinsert, rfl⟩ := Option.map_eq_some_iff.mp hstep
      exact h.commit hstage hok hinsert
    · cases hstep
  | drop c =>
    simp only [Versioning.step] at hstep
    split at hstep
    · cases hstep
    · cases hstep
      split_ifs with hc
      · exact h.release hc rfl trivial (fun _ => CallStage.noConfusion) rfl
      · exact h.outside trivial rfl fun _ => CallStage.noConfusion

theorem Inv.sound (h : s.Inv file) : s.Sound := by
  refine ⟨s.versions.nodup, ?_, h.objects, h.current⟩
  refine List.Nodup.map_on (fun row hrow other hother hkey => ?_) (List.Nodup.of_map _ s.versions.nodup)
  exact Table.eq_of_key hrow hother ((h.own row hrow).inj (h.own other hother) hkey)

variable {versions : Table FileVersion FileVersion.version} {storageKey : String} {objects : String → Option Content}

/-- **The history is right** in a run of orderly calls, from a right history whose versions have keys of their own. -/
theorem run_versions (hown : ∀ row ∈ versions, row.Own file) (hsound : (init versions storageKey objects).Sound)
    (h : Run (step file) (Orderly file) (init versions storageKey objects) es s) : s.Sound := by
  have hinit : (init versions storageKey objects).Inv file :=
    ⟨hown, hsound.objects, hsound.current, fun _ hd => (by cases hd), fun _ => trivial, fun _ _ _ hd => by cases hd⟩
  exact (h.invariant hinit fun _ _ _ hinv hok hstep => hinv.step hok hstep).sound

/-! ### Two calls -/

/-- A file of site 1. -/
def logo : FileId := ⟨1, 9⟩

/-- Its upload, -/
def logoUpload : FileVersion := ⟨1, objectKey logo "logo.png", "image/png", [1]⟩

/-- which is its history, -/
def logoVersions : Table FileVersion FileVersion.version := ⟨[logoUpload], by decide⟩

/-- and its object. -/
def logoObjects (key : String) : Option Content := if key = logoUpload.storageKey then some [1] else none

theorem own_logoVersions : ∀ row ∈ logoVersions, row.Own logo := by
  intro row hrow
  obtain rfl := List.mem_singleton.mp hrow
  exact .inr ⟨rfl, "logo.png", rfl⟩

theorem sound_logo : (init logoVersions logoUpload.storageKey logoObjects).Sound := by
  refine ⟨by decide, List.nodup_singleton _, fun row hrow => ?_, fun row hrow _ => ?_⟩
  · obtain rfl := List.mem_singleton.mp hrow
    exact (if_pos rfl : logoObjects logoUpload.storageKey = some [1])
  · obtain rfl := List.mem_singleton.mp hrow
    rfl

/-- A replace, and a restore that begins meanwhile and reads its number afterwards. -/
def replaceAndRestore : List VersionEvent :=
  [.replace 1 "logo.png" "image/png" [2], .restore 2 "logo.png" 1, .nextVersion 1, .lock 1, .read 1, .put 1,
    .append 1 true, .commit 1, .nextVersion 2, .lock 2, .read 2, .put 2, .append 2 true, .commit 2]

/-- They append versions 2 and 3. -/
theorem run_versions_twice : ∃ s, Run (step logo) (Orderly logo) (init logoVersions logoUpload.storageKey logoObjects)
    replaceAndRestore s ∧
      s.versions.rows.map (fun row => (row.version, row.content)) = [(1, [1]), (2, [2]), (3, [1])] ∧ s.Sound := by
  have hrun : ∃ s, Run (step logo) (Orderly logo) (init logoVersions logoUpload.storageKey logoObjects)
      replaceAndRestore s ∧
        s.versions.rows.map (fun row => (row.version, row.content)) = [(1, [1]), (2, [2]), (3, [1])] := by
    refine ⟨_, .cons trivial rfl (.cons trivial rfl (.cons trivial rfl (.cons trivial rfl (.cons trivial rfl
      (.cons ?_ rfl (.cons trivial rfl (.cons ?_ rfl (.cons trivial rfl (.cons trivial rfl (.cons trivial rfl
      (.cons ?_ rfl (.cons trivial rfl (.cons ?_ rfl .nil))))))))))))), rfl⟩
    -- no call has to clean up, and none waits for the lock
    · rintro call number bytes - (_ | _ | _ | d) key hd <;> cases hd
    · rintro row - (_ | _ | _ | d) call number hd <;> cases hd
    · rintro call number bytes - (_ | _ | _ | d) key hd <;> cases hd
    · rintro row - (_ | _ | _ | d) call number hd <;> cases hd
  obtain ⟨s, hrun, hversions⟩ := hrun
  exact ⟨s, hrun, hversions, run_versions own_logoVersions sound_logo hrun⟩

/-- A replace that waits for another takes its number, puts its own bytes under its key and then deletes them. -/
theorem stale_number : ∃ s, Run (step logo) Any (init logoVersions logoUpload.storageKey logoObjects)
    [.replace 1 "logo.png" "image/png" [2], .replace 2 "logo.png" "image/png" [3], .nextVersion 1,
      .nextVersion 2, .lock 1,
      .read 1, .put 1, .append 1 true, .commit 1, .lock 2, .read 2, .put 2, .append 2 true,
        .clean 2] s ∧ ¬ s.Sound := by
  have hexec : (exec (step logo) (init logoVersions logoUpload.storageKey logoObjects)
      [.replace 1 "logo.png" "image/png" [2], .replace 2 "logo.png" "image/png" [3], .nextVersion 1,
        .nextVersion 2, .lock 1,
        .read 1, .put 1, .append 1 true, .commit 1, .lock 2, .read 2, .put 2, .append 2 true, .clean 2]).map
      (fun s => s.versions.rows.map fun row => (row.version, s.objects row.storageKey)) =
        some [(1, some [1]), (2, none)] := by
    decide +kernel
  obtain ⟨s, hrun, hobjects⟩ := Run.of_exec_map hexec
  refine ⟨s, hrun, fun h => ?_⟩
  obtain ⟨row, hrow, hpair⟩ : ∃ row ∈ s.versions.rows, (row.version, s.objects row.storageKey) = (2, none) := by
    rw [← List.mem_map, hobjects]
    exact List.mem_cons_of_mem _ (List.mem_singleton.mpr rfl)
  have hnone := (Prod.mk.inj hpair).2
  rw [h.objects row hrow] at hnone
  cases hnone

end Versioning

end Omnion.Media
