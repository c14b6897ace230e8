import Omnion.Media.Scanning

/-!
# Quarantines

Whether a file is held is told twice: its `scan_status` is `flagged`, and it has an open row in `media_quarantines`.
`apply_verdict` and `close_quarantine` of `crates/media/src/scanning.rs` write both, each in one transaction, next to
any number of workers and reviewers.

## The model

The runs are those of the scanning pipeline. A worker holds the file's row from the update to the commit, so nobody
else opens a quarantine of the file meanwhile; a reviewer holds the quarantine's row and then the file's. Each
transaction is measured by what it sees: that is what everybody reads once it commits.

## What is proved

* `run_quarantined` — in every run that is `Unlifted` a file has at most one open quarantine, has one iff it is flagged,
  and has neither after a release.
* `lifted_flag` — two sweeps that read the same pending file leave it unflagged and in quarantine.

## Honest scope

Quarantines come from scans only, and neither files nor quarantines are deleted.
-/

namespace Omnion.Media

open Transition Versions

/-- The quarantine is one of the file, and open. -/
def OpenFor (rows : Uuid → Option Quarantine) (id mediaId : Uuid) : Prop :=
    ∃ row, rows id = some row ∧ row.holds mediaId = true

def Flagged (files : Uuid → Option ScannedFile) (mediaId : Uuid) : Prop :=
  ∃ file, files mediaId = some file ∧ file.scanStatus = .flagged

/-- **A file is held in both tables or in none**: it has at most one open quarantine, and has one iff it is flagged. -/
structure AgreeAt (files : Uuid → Option ScannedFile) (rows : Uuid → Option Quarantine) (mediaId : Uuid) : Prop where
  single : ∀ id id', OpenFor rows id mediaId → OpenFor rows id' mediaId → id = id'
  flagged : (∃ id, OpenFor rows id mediaId) ↔ Flagged files mediaId

theorem Quarantine.holds_iff {row : Quarantine} {mediaId : Uuid} :
    row.holds mediaId = true ↔ row.mediaId = mediaId ∧ row.releasedAt = none := decide_eq_true_iff

section Agree

variable {files files' : Uuid → Option ScannedFile} {rows rows' : Uuid → Option Quarantine} {id mediaId : Uuid}
  {row : Quarantine}

theorem OpenFor.congr (h : rows' id = rows id) : OpenFor rows' id mediaId ↔ OpenFor rows id mediaId := by
  simp only [OpenFor, h]

theorem Flagged.congr (h : files' mediaId = files mediaId) : Flagged files' mediaId ↔ Flagged files mediaId := by
  simp only [Flagged, h]

theorem not_openFor (h : ∀ row, rows id = some row → row.mediaId ≠ mediaId) : ¬ OpenFor rows id mediaId := by
  rintro ⟨row, hrow, hholds⟩
  exact h row hrow (Quarantine.holds_iff.mp hholds).1

theorem not_openFor_released (hrow : rows id = some row) (hreleased : row.releasedAt ≠ none) :
    ¬ OpenFor rows id mediaId := by
  rintro ⟨row', hrow', hholds⟩
  obtain rfl := Option.some.inj (hrow.symm.trans hrow')
  exact hreleased (Quarantine.holds_iff.mp hholds).2

theorem AgreeAt.congr (hrows : ∀ id, OpenFor rows' id mediaId ↔ OpenFor rows id mediaId)
    (hfile : Flagged files' mediaId ↔ Flagged files mediaId) (h : AgreeAt files rows mediaId) :
    AgreeAt files' rows' mediaId := by
  refine ⟨fun id id' hid hid' => h.single id id' ((hrows id).mp hid) ((hrows id').mp hid'), ?_⟩
  rw [hfile, ← h.flagged]
  exact exists_congr hrows

theorem AgreeAt.not_openFor (h : AgreeAt files rows mediaId) (hfile : ¬ Flagged files mediaId) :
    ¬ OpenFor rows id mediaId :=
  fun hopen => hfile (h.flagged.mp ⟨id, hopen⟩)

theorem AgreeAt.of_none (hrows : ∀ id, ¬ OpenFor rows id mediaId) (hfile : ¬ Flagged files mediaId) :
    AgreeAt files rows mediaId :=
  ⟨fun id _ hopen => absurd hopen (hrows id), ⟨fun ⟨id, hopen⟩ => absurd hopen (hrows id), fun h => absurd h hfile⟩⟩

theorem AgreeAt.of_one (hopen : OpenFor rows id mediaId) (hothers : ∀ id', id' ≠ id → ¬ OpenFor rows id' mediaId)
    (hfile : Flagged files mediaId) : AgreeAt files rows mediaId := by
  have hid : ∀ id', OpenFor rows id' mediaId → id' = id := fun id' h => by_contra fun hne => hothers id' hne h
  exact ⟨fun a b ha hb => (hid a ha).trans (hid b hb).symm, ⟨fun _ => hfile, fun _ => ⟨id, hopen⟩⟩⟩

end Agree

/-! ### What the parties hold -/

/-- The file whose row a party may have written. -/
def ScanStage.file : ScanStage → Option Uuid
  | .marked _ scan _ _ | .held _ scan _ _ _ => some scan.mediaId
  | .released _ mediaId | .appended mediaId => some mediaId
  | _ => none

/-- The quarantine whose row a party may have written. -/
def ScanStage.quarantine : ScanStage → Option Uuid
  | .held _ _ _ opened _ => opened
  | .closing id _ | .released id _ => some id
  | _ => none

namespace Scanning

/-- A transaction about the file sees it right. -/
structure Ready (s : Scanning) (p : ℕ) (mediaId : Uuid) : Prop where
  /-- It holds the file, -/
  file : ∃ file, (s.media mediaId).held = some (p, some file)
  /-- holds no quarantine of another, -/
  rows : ∀ id own, (s.quarantines id).held = some (p, own) → ∀ row,
    own = some row ∨ (s.quarantines id).committed = some row → row.mediaId = mediaId
  /-- and what it sees of it agrees. -/
  agree : AgreeAt (s.media.view p) (s.quarantines.view p) mediaId

/-- The party has closed the quarantine, which everybody else still reads as open. -/
def Closed (s : Scanning) (p : ℕ) (id mediaId : Uuid) : Prop :=
  (∃ row, (s.quarantines id).held = some (p, some row) ∧ row.mediaId = mediaId ∧ row.releasedAt ≠ none) ∧
    OpenFor s.quarantines.read id mediaId

/-- What a party has done so far. -/
def Fine (s : Scanning) (p : ℕ) : ScanStage → Prop
  | .marked _ scan _ _ => ∃ file, (s.media scan.mediaId).held = some (p, some file) ∧ file.scanStatus = .flagged
  | .held _ scan _ _ _ => s.Ready p scan.mediaId
  | .closing id mediaId => s.Closed p id mediaId
  | .released _ mediaId => s.Ready p mediaId ∧ ¬ Flagged (s.media.view p) mediaId
  | .appended mediaId => s.Ready p mediaId
  | _ => True

/-- **The two tables agree**, also at the end of every release. -/
structure Sound (s : Scanning) : Prop where
  agree : ∀ mediaId, AgreeAt s.media.read s.quarantines.read mediaId
  released : ∀ release ∈ s.releases,
    (∀ id, ¬ OpenFor release.quarantines.read id release.mediaId) ∧ ¬ Flagged release.media.read release.mediaId

/-- **No flag is lifted by a scan**: a verdict other than a flag is not written onto a file that is flagged. -/
def Unlifted (s : Scanning) : ScanEvent → Prop
  | .mark w _ => ∀ run scan sent verdict rest, s.parties w = .judged run scan sent verdict rest →
    verdict.status ≠ .flagged →
      ∀ file, (s.media scan.mediaId).seen w = some file → file.scanStatus ≠ .flagged
  | _ => True

/-- **What holds of every state.** -/
structure Inv (s : Scanning) : Prop where
  /-- The rows are known, -/
  files : ∀ id, id ∉ s.mediaIds → s.media id = {}
  rows : ∀ id, id ∉ s.quarantineIds → s.quarantines id = {}
  /-- a party holds what its stage says, -/
  file : ∀ id p own, (s.media id).held = some (p, own) → (s.parties p).file = some id
  quarantine : ∀ id p own, (s.quarantines id).held = some (p, own) → (s.parties p).quarantine = some id
  /-- and has it right. -/
  fine : ∀ p, s.Fine p (s.parties p)
  sound : s.Sound

variable {s t : Scanning} {p q w r : ℕ} {id mediaId other : Uuid} {file : ScannedFile}
  {stage : ScanStage} {e : ScanEvent}
  {es : List ScanEvent} {row : Quarantine} {own : Option ScannedFile} {ownRow : Option Quarantine}
    {releases : List Release}

/-! ### What a transaction sees -/

theorem Inv.media_ne (h : s.Inv) (hnone : (s.parties p).file = none) : (s.media id).held ≠ some (p, own) := by
  intro hheld
  rw [h.file id p own hheld] at hnone
  cases hnone

theorem Inv.quarantines_ne (h : s.Inv) (hnone : (s.parties p).quarantine = none) :
    (s.quarantines id).held ≠ some (p, ownRow) := by
  intro hheld
  rw [h.quarantine id p ownRow hheld] at hnone
  cases hnone

theorem Inv.view_media (h : s.Inv) (hnone : (s.parties p).file = none) : s.media.view p = s.media.read :=
  funext fun _ => Rows.view_of_not_held fun _ => h.media_ne hnone

theorem Inv.view_quarantines (h : s.Inv) (hnone : (s.parties p).quarantine = none) :
    s.quarantines.view p = s.quarantines.read :=
  funext fun _ => Rows.view_of_not_held fun _ => h.quarantines_ne hnone

/-- What `apply_verdict` asks before it inserts. -/
theorem Inv.hasOpen_iff (h : s.Inv) : s.hasOpen p mediaId = true ↔ ∃ id, OpenFor (s.quarantines.view p) id mediaId := by
  simp only [hasOpen, List.any_eq_true, Option.any_eq_true]
  constructor
  · rintro ⟨id, -, row, hrow, hholds⟩
    exact ⟨id, row, hrow, hholds⟩
  · rintro ⟨id, row, hrow, hholds⟩
    refine ⟨id, ?_, row, hrow, hholds⟩
    by_contra hid
    rw [Rows.view, h.rows id hid] at hrow
    cases hrow

theorem flagged_writeFile :
    Flagged ((s.writeFile p id file stage).media.view p) id ↔ file.scanStatus = .flagged := by
  have hview : (s.writeFile p id file stage).media.view p id = some file := Rows.view_write_self
  simp [Flagged, hview]

theorem Ready.openFor_of_ne (h : s.Ready p mediaId) (hne : other ≠ mediaId) :
    OpenFor (s.quarantines.view p) id other ↔ OpenFor s.quarantines.read id other := by
  by_cases hheld : ∃ own, (s.quarantines id).held = some (p, own)
  · obtain ⟨own, hheld⟩ := hheld
    refine iff_of_false (not_openFor fun row hrow heq => hne ?_) (not_openFor fun row hrow heq => hne ?_)
    · have hown : own = some row := (Rows.view_of_held hheld).symm.trans hrow
      exact heq.symm.trans (h.rows id own hheld row (.inl hown))
    · exact heq.symm.trans (h.rows id own hheld row (.inr hrow))
  · exact OpenFor.congr (Rows.view_of_not_held (not_exists.mp hheld))

/-- **What is committed**: a transaction that sees its file right sees every file right. -/
theorem Ready.commit (h : s.Ready p mediaId) (hagree : ∀ m, AgreeAt s.media.read s.quarantines.read m)
    (honly : ∀ id own, (s.media id).held = some (p, own) → id = mediaId) (m : Uuid) :
    AgreeAt (s.media.view p) (s.quarantines.view p) m := by
  by_cases hm : m = mediaId
  · exact hm ▸ h.agree
  · refine (hagree m).congr (fun id => h.openFor_of_ne hm) (Flagged.congr (Rows.view_of_not_held fun own hheld => ?_))
    exact hm (honly m own hheld)

/-! ### What the steps of others keep -/

/-- What a transaction has seen of its file, as long as its rows are kept and nobody else commits a quarantine of it. -/
theorem Ready.of_step (h : s.Ready q mediaId)
    (hmedia : ∀ id own, (s.media id).held = some (q, own) ∨ (t.media id).held = some (q, own) → t.media id = s.media id)
    (hrows : ∀ id own, (s.quarantines id).held = some (q, own) ∨ (t.quarantines id).held = some (q, own) →
      t.quarantines id = s.quarantines id)
    (hopen : ∀ id, OpenFor t.quarantines.read id mediaId ↔ OpenFor s.quarantines.read id mediaId) : t.Ready q mediaId :=
      by
  obtain ⟨file, hfile⟩ := h.file
  have hrow := hmedia mediaId _ (.inl hfile)
  refine ⟨⟨file, by rw [hrow, hfile]⟩, fun id own hheld row hversion => ?_,
    h.agree.congr (fun id => ?_) (Flagged.congr ?_)⟩
  · have hsame := hrows id own (.inr hheld)
    rw [hsame] at hheld hversion
    exact h.rows id own hheld row hversion
  · by_cases hheld : ∃ own, (s.quarantines id).held = some (q, own) ∨ (t.quarantines id).held = some (q, own)
    · obtain ⟨own, hheld⟩ := hheld
      exact OpenFor.congr (congrArg (·.seen q) (hrows id own hheld))
    · rw [OpenFor.congr (Rows.view_of_not_held fun own hs => hheld ⟨own, .inl hs⟩),
        OpenFor.congr (Rows.view_of_not_held fun own ht => hheld ⟨own, .inr ht⟩)]
      exact hopen id
  · exact congrArg (·.seen q) hrow

/-- **What a party has done stays right.** -/
theorem Fine.of_step (h : s.Fine q stage)
    (hmedia : ∀ id own, (s.media id).held = some (q, own) ∨ (t.media id).held = some (q, own) → t.media id = s.media id)
    (hrows : ∀ id own, (s.quarantines id).held = some (q, own) ∨ (t.quarantines id).held = some (q, own) →
      t.quarantines id = s.quarantines id)
    (hopen : ∀ m own, (s.media m).held = some (q, own) → ∀ id,
      OpenFor t.quarantines.read id m ↔ OpenFor s.quarantines.read id m) : t.Fine q stage := by
  have hready : ∀ {m}, s.Ready q m → t.Ready q m := by
    intro m hm
    obtain ⟨file, hfile⟩ := hm.file
    exact hm.of_step hmedia hrows (hopen m _ hfile)
  cases stage with
  | marked run scan verdict rest =>
    obtain ⟨file, hheld, hflagged⟩ := h
    exact ⟨file, by rw [hmedia _ _ (.inl hheld), hheld], hflagged⟩
  | held run scan verdict opened rest => exact hready h
  | closing id mediaId =>
    obtain ⟨⟨row, hheld, hrow⟩, hread⟩ := h
    have hsame := hrows id _ (.inl hheld)
    have hopen' : OpenFor t.quarantines.read id mediaId ↔ OpenFor s.quarantines.read id mediaId :=
      OpenFor.congr (congrArg Row.committed hsame)
    exact ⟨⟨row, by rw [hsame, hheld], hrow⟩, hopen'.mpr hread⟩
  | released id mediaId =>
    obtain ⟨hm, hflagged⟩ := h
    obtain ⟨file, hfile⟩ := hm.file
    have hsame : Flagged (t.media.view q) mediaId ↔ Flagged (s.media.view q) mediaId :=
      Flagged.congr (congrArg (·.seen q) (hmedia mediaId _ (.inl hfile)))
    exact ⟨hready hm, fun hnow => hflagged (hsame.mp hnow)⟩
  | appended mediaId => exact hready h
  | _ => trivial

/-- **What one party does keeps the invariant**, where its own rows and what is committed are right. -/
theorem Inv.of_step (h : s.Inv) (hparties : t.parties = Function.update s.parties p stage)
    (hfiles : ∀ id, id ∉ t.mediaIds → t.media id = {}) (hrows : ∀ id, id ∉ t.quarantineIds → t.quarantines id = {})
    (hmedia : Untouched p s.media t.media) (hquarantines : Untouched p s.quarantines t.quarantines)
    (hopen : ∀ m q own, q ≠ p → (s.media m).held = some (q, own) → ∀ id,
      OpenFor t.quarantines.read id m ↔ OpenFor s.quarantines.read id m)
    (hfile : ∀ id own, (t.media id).held = some (p, own) → stage.file = some id)
    (hquarantine : ∀ id own, (t.quarantines id).held = some (p, own) → stage.quarantine = some id)
    (hfine : t.Fine p stage) (hsound : t.Sound) : t.Inv := by
  have hself : t.parties p = stage := by rw [hparties, Function.update_self]
  have hother : ∀ {q}, q ≠ p → t.parties q = s.parties q := fun hq => by rw [hparties, Function.update_of_ne hq]
  refine ⟨hfiles, hrows, fun id q own hheld => ?_, fun id q own hheld => ?_, fun q => ?_, hsound⟩
  · by_cases hq : q = p
    · subst hq
      exact hself ▸ hfile id own hheld
    · rw [hother hq]
      exact h.file id q own (by rw [← hmedia q hq id own (.inr hheld), hheld])
  · by_cases hq : q = p
    · subst hq
      exact hself ▸ hquarantine id own hheld
    · rw [hother hq]
      exact h.quarantine id q own (by rw [← hquarantines q hq id own (.inr hheld), hheld])
  · by_cases hq : q = p
    · subst hq
      exact hself.symm ▸ hfine
    · rw [hother hq]
      exact (h.fine q).of_step (hmedia q hq) (hquarantines q hq) fun m own hheld => hopen m q own hq hheld

/-! ### One lemma a function -/

theorem Inv.move (h : s.Inv) (hfile : ∀ id, (s.parties p).file = some id → stage.file = some id)
    (hquarantine : ∀ id, (s.parties p).quarantine = some id → stage.quarantine = some id)
    (hfine : (s.move p stage).Fine p stage) : (s.move p stage).Inv :=
  h.of_step rfl h.files h.rows .refl .refl (fun _ _ _ _ _ _ => Iff.rfl)
    (fun id own hheld => hfile id (h.file id p own hheld)) (fun id own hheld => hquarantine id
      (h.quarantine id p own hheld))
    hfine ⟨h.sound.agree, h.sound.released⟩

theorem Inv.writeFile (h : s.Inv) (hid : id ∈ s.mediaIds) (hfree : (s.media id).free p = true)
    (hfile : ∀ id', (s.parties p).file = some id' → id' = id) (hstage : stage.file = some id)
    (hquarantine : ∀ id, (s.parties p).quarantine = some id → stage.quarantine = some id)
    (hfine : (s.writeFile p id file stage).Fine p stage) : (s.writeFile p id file stage).Inv := by
  have hread : (s.media.write p id (some file)).read = s.media.read := Rows.read_write
  refine h.of_step rfl (fun id' hid' => ?_) h.rows (untouched_write hfree) .refl (fun _ _ _ _ _ _ => Iff.rfl)
    (fun id' own hheld => ?_) (fun id' own hheld => hquarantine id' (h.quarantine id' p own hheld)) hfine
    ⟨fun m => ?_, h.sound.released⟩
  · have hne : id' ≠ id := fun heq => hid' (heq ▸ hid)
    exact (Rows.write_of_ne hne).trans (h.files id' hid')
  · rcases Rows.held_write hheld with ⟨rfl, -, -⟩ | ⟨-, hold⟩
    · exact hstage
    · rw [hstage, hfile id' (h.file id' p own hold)]
  · exact hread.symm ▸ h.sound.agree m

theorem Inv.writeQuarantine {quarantineIds : List Uuid} (h : s.Inv)
    (hids : ∀ id', id' ∉ quarantineIds → id' ≠ id ∧ id' ∉ s.quarantineIds) (hfree : (s.quarantines id).free p = true)
    (hfile : ∀ id, (s.parties p).file = some id → stage.file = some id) (hnone : (s.parties p).quarantine = none)
    (hstage : stage.quarantine = some id)
    (hfine : ({ s.writeQuarantine p id row stage with quarantineIds } : Scanning).Fine p stage) :
    ({ s.writeQuarantine p id row stage with quarantineIds } : Scanning).Inv := by
  have hread : (s.quarantines.write p id (some row)).read = s.quarantines.read := Rows.read_write
  refine h.of_step rfl h.files (fun id' hid' => ?_) .refl (untouched_write hfree) (fun m q own hq hheld id' => ?_)
    (fun id' own hheld => hfile id' (h.file id' p own hheld)) (fun id' own hheld => ?_) hfine
    ⟨fun m => ?_, h.sound.released⟩
  · exact (Rows.write_of_ne (hids id' hid').1).trans (h.rows id' (hids id' hid').2)
  · exact OpenFor.congr (congrFun hread id')
  · rcases Rows.held_write hheld with ⟨rfl, -, -⟩ | ⟨-, hold⟩
    · exact hstage
    · exact absurd hold (h.quarantines_ne hnone)
  · exact hread.symm ▸ h.sound.agree m

theorem Inv.abort (h : s.Inv) (hfine : (s.abort p stage).Fine p stage) : (s.abort p stage).Inv := by
  have hread : (s.quarantines.rollback p).read = s.quarantines.read := Rows.read_rollback
  refine h.of_step rfl (fun id hid => Rows.rollback_of_empty (h.files id hid))
    (fun id hid => Rows.rollback_of_empty (h.rows id hid)) untouched_rollback untouched_rollback
    (fun m q own hq hheld id => OpenFor.congr (congrFun hread id))
    (fun id own hheld => absurd rfl (Rows.held_rollback.mp hheld).2)
    (fun id own hheld => absurd rfl (Rows.held_rollback.mp hheld).2) hfine ⟨fun m => ?_, h.sound.released⟩
  · simpa only [Scanning.abort, Rows.read_rollback] using h.sound.agree m

theorem Inv.commit (h : s.Inv) (hready : s.Ready p mediaId) (hfile : (s.parties p).file = some mediaId)
    (hfine : ({ s.commit p stage with releases } : Scanning).Fine p stage)
    (hreleases : ∀ release ∈ releases, release ∈ s.releases ∨
      (∀ id, ¬ OpenFor release.quarantines.read id release.mediaId) ∧ ¬ Flagged release.media.read release.mediaId) :
    ({ s.commit p stage with releases } : Scanning).Inv := by
  have honly : ∀ id own, (s.media id).held = some (p, own) → id = mediaId := fun id own hheld =>
    Option.some.inj ((h.file id p own hheld).symm.trans hfile)
  refine h.of_step rfl (fun id hid => Rows.commit_of_empty (h.files id hid))
    (fun id hid => Rows.commit_of_empty (h.rows id hid)) untouched_commit untouched_commit
    (fun m q own hq hheld id => ?_) (fun id own hheld => absurd rfl (Rows.held_commit.mp hheld).2)
    (fun id own hheld => absurd rfl (Rows.held_commit.mp hheld).2) hfine
    ⟨fun m => ?_, fun release hrelease => (hreleases release hrelease).elim (h.sound.released release) id⟩
  · -- the file another transaction has written is not the one this has written
    have hm : m ≠ mediaId := by
      rintro rfl
      obtain ⟨file, hown⟩ := hready.file
      exact hq (congrArg Prod.fst (Option.some.inj (hheld.symm.trans hown)))
    simpa only [Scanning.commit, Rows.read_commit] using hready.openFor_of_ne hm
  · simpa only [Scanning.commit, Rows.read_commit] using hready.commit h.sound.agree honly m

/-- A file that is uploaded is not flagged, and has no quarantine. -/
theorem Inv.upload (h : s.Inv) (hid : id ∉ s.mediaIds) (hpending : file.scanStatus = .pending) :
    ({ s with mediaIds := id :: s.mediaIds, media := Function.update s.media id { committed := some file } } :
      Scanning).Inv := by
  have hempty := h.files id hid
  have hmedia : ∀ p, Untouched p s.media (Function.update s.media id { committed := some file }) := by
    intro p q hq m own hheld
    by_cases hm : m = id
    · subst hm
      rw [hempty, Function.update_self] at hheld
      rcases hheld with hheld | hheld <;> cases hheld
    · exact Function.update_of_ne hm ..
  refine ⟨fun m hm => ?_, h.rows, fun m q own hheld => ?_, h.quarantine, fun q => ?_, fun m => ?_, h.sound.released⟩
  · obtain ⟨hne, hold⟩ := not_or.mp (mt List.mem_cons.mpr hm)
    exact (Function.update_of_ne hne ..).trans (h.files m hold)
  · have hsame := hmedia (q + 1) q (Nat.lt_succ_self q).ne m own (.inr hheld)
    exact h.file m q own (hsame ▸ hheld)
  · exact (h.fine q).of_step (hmedia (q + 1) q (Nat.lt_succ_self q).ne) (fun _ _ _ => rfl) fun _ _ _ _ => Iff.rfl
  · refine (h.sound.agree m).congr (fun _ => Iff.rfl) ?_
    by_cases hm : m = id
    · subst hm
      simp [Flagged, Rows.read, hpending, hempty]
    · exact Flagged.congr (congrArg Row.committed (Function.update_of_ne hm ..))

variable {run : Sweep} {scan : PendingScan} {verdict : Verdict} {rest : List PendingScan} {now : Instant}
  {key reason : String}
  {actor : Uuid} {sizeBytes : ℤ}

theorem Inv.ready_writeFile (h : s.Inv) (hnone : (s.parties p).quarantine = none)
    (hflagged : file.scanStatus = .flagged ↔ Flagged s.media.read id) : (s.writeFile p id file stage).Ready p id := by
  refine ⟨⟨file, Rows.held_write_self⟩, fun id' own hheld => absurd hheld (h.quarantines_ne hnone), ?_⟩
  refine (h.sound.agree id).congr (fun id' => OpenFor.congr ?_) (flagged_writeFile.trans hflagged)
  exact congrFun (h.view_quarantines hnone) id'

/-- The update of `apply_verdict`. -/
theorem Inv.markFile (h : s.Inv) (hfile : (s.parties w).file = none) (hnone : (s.parties w).quarantine = none)
    (hok : verdict.status ≠ .flagged → ∀ file, (s.media scan.mediaId).seen w = some file → file.scanStatus ≠ .flagged)
    (hstep : s.markFile w run scan verdict rest now = some t) : t.Inv := by
  rw [Scanning.markFile] at hstep
  split at hstep
  · cases hstep
  · rename_i file hseen
    split_ifs at hstep with hfree hflag
    · cases hstep
      refine h.writeFile (Rows.mem_of_seen h.files hseen) hfree ?_ rfl ?_ ⟨_, Rows.held_write_self, hflag⟩
      · simp [hfile]
      · simp [hnone]
    · cases hstep
      refine h.writeFile (Rows.mem_of_seen h.files hseen) hfree ?_ rfl ?_
        (h.ready_writeFile hnone (iff_of_false hflag ?_))
      · simp [hfile]
      · simp [hnone]
      · rintro ⟨file', hread, hflagged⟩
        rw [← h.view_media hfile] at hread
        exact hok hflag file' hread hflagged

/-- The insert of `apply_verdict`. -/
theorem Inv.holdFile (h : s.Inv) (hstage : s.parties w = .marked run scan verdict rest)
    (hstep : s.holdFile w run scan verdict rest id now = some t) : t.Inv := by
  have hfile : (s.parties w).file = some scan.mediaId := by rw [hstage]; rfl
  have hnone : (s.parties w).quarantine = none := by rw [hstage]; rfl
  obtain ⟨file, hheld, hflagged⟩ : ∃ file, (s.media scan.mediaId).held = some (w, some file) ∧
    file.scanStatus = .flagged := by
    have hfine := h.fine w
    rwa [hstage] at hfine
  have hflag : Flagged (s.media.view w) scan.mediaId := ⟨file, Rows.view_of_held hheld, hflagged⟩
  have hview := h.view_quarantines hnone
  rw [Scanning.holdFile] at hstep
  split_ifs at hstep with hid hopen hdetail
  · -- the file has one
    cases hstep
    refine h.move (fun id hid => hfile.symm.trans hid) (by simp [hnone])
      ⟨⟨file, hheld⟩, fun id own hown => absurd hown (h.quarantines_ne hnone), ?_⟩
    have hone := h.hasOpen_iff.mp hopen
    refine ⟨fun id id' => ?_, iff_of_true hone hflag⟩
    rw [show (s.move w (.held run scan verdict none rest)).quarantines.view w = s.quarantines.read from hview]
    exact (h.sound.agree scan.mediaId).single id id'
  · cases hstep
    exact h.abort trivial
  · cases hstep
    have hempty := h.rows id hid
    refine h.writeQuarantine ?_ ?_ ?_ hnone rfl ⟨⟨file, hheld⟩, ?_, ?_⟩
    · exact fun id' hid' => not_or.mp (mt List.mem_cons.mpr hid')
    · rw [hempty]
      rfl
    · exact fun id hid => hfile.symm.trans hid
    · intro id' own hown row hversion
      rcases Rows.held_write hown with ⟨rfl, -, rfl⟩ | ⟨-, hold⟩
      · rcases hversion with hversion | hversion
        · cases hversion
          rfl
        · simp [Scanning.writeQuarantine, hempty] at hversion
      · exact absurd hold (h.quarantines_ne hnone)
    · refine AgreeAt.of_one (?_ : OpenFor _ id _) (fun id' hne hopen' => hopen (h.hasOpen_iff.mpr ⟨id', ?_⟩)) hflag
      · exact ⟨_, Rows.view_write_self, Quarantine.holds_iff.mpr ⟨rfl, rfl⟩⟩
      · exact (OpenFor.congr (Rows.view_write_of_ne hne)).mp hopen'

/-- The first update of `close_quarantine`. -/
theorem Inv.closeQuarantine (h : s.Inv) (hstage : s.parties r = .idle)
    (hstep : s.closeQuarantine r id reason actor now = some t) : t.Inv := by
  have hfile : (s.parties r).file = none := by rw [hstage]; rfl
  have hnone : (s.parties r).quarantine = none := by rw [hstage]; rfl
  rw [Scanning.closeQuarantine] at hstep
  split at hstep
  · cases hstep
    exact h
  · split at hstep
    · cases hstep
      exact h
    · rename_i row hseen
      split_ifs at hstep with hreleased hfree
      · cases hstep
        have hread : s.quarantines.read id = some row := (congrFun (h.view_quarantines hnone) id).symm.trans hseen
        refine h.writeQuarantine ?_ hfree (by simp [hfile]) hnone rfl ⟨⟨_, Rows.held_write_self, ?_, ?_⟩, ?_⟩
        · intro id' hid'
          refine ⟨fun heq => hid' ?_, hid'⟩
          rw [heq]
          exact Rows.mem_of_seen h.rows hseen
        · rfl
        · simp
        · refine (OpenFor.congr (congrFun Rows.read_write id)).mpr ⟨row, hread, ?_⟩
          exact Quarantine.holds_iff.mpr ⟨rfl, hreleased⟩
      · cases hstep
        exact h

/-- The second update of `close_quarantine`. -/
theorem Inv.reopenFile (h : s.Inv) (hstage : s.parties r = .closing id mediaId)
    (hstep : s.reopenFile r id mediaId = some t) : t.Inv := by
  have hfile : (s.parties r).file = none := by rw [hstage]; rfl
  have hquarantine : (s.parties r).quarantine = some id := by rw [hstage]; rfl
  obtain ⟨⟨row, hheld, hrow, hreleased⟩, hopen⟩ : s.Closed r id mediaId := by
    have hfine := h.fine r
    rwa [hstage] at hfine
  have hagree := h.sound.agree mediaId
  -- the file is flagged as long as the release is not committed
  obtain ⟨file, hread, hflagged⟩ := hagree.flagged.mp ⟨id, hopen⟩
  have hseen : (s.media mediaId).seen r = some file := (congrFun (h.view_media hfile) mediaId).trans hread
  simp only [Scanning.reopenFile, hseen, if_pos hflagged] at hstep
  split_ifs at hstep with hfree
  cases hstep
  have hunflagged : ¬ Flagged ((s.writeFile r mediaId { file with
      scanStatus := .skipped, scanDetail := "released from quarantine without a further scan" }
      (.released id mediaId)).media.view r) mediaId := by
    rw [flagged_writeFile]
    simp
  refine h.writeFile (Rows.mem_of_seen h.files hseen) hfree (by simp [hfile]) rfl
    (fun id hid => hquarantine.symm.trans hid)
    ⟨⟨⟨_, Rows.held_write_self⟩, fun id' own hown row' hversion => ?_, AgreeAt.of_none (fun id' => ?_) hunflagged⟩,
      hunflagged⟩
  · obtain rfl := Option.some.inj (hquarantine.symm.trans (h.quarantine id' r own hown))
    obtain ⟨-, rfl⟩ := Prod.mk.inj (Option.some.inj (hheld.symm.trans hown))
    rcases hversion with hversion | hversion
    · exact Option.some.inj hversion ▸ hrow
    · obtain ⟨row'', hread', hholds⟩ := hopen
      rw [Option.some.inj (hversion.symm.trans hread')]
      exact (Quarantine.holds_iff.mp hholds).1
  · by_cases hid : id' = id
    · subst hid
      exact not_openFor_released (Rows.view_of_held hheld) hreleased
    · have hsame : s.quarantines.view r id' = s.quarantines.read id' := by
        refine Rows.view_of_not_held fun own hown => hid ?_
        exact Option.some.inj ((h.quarantine id' r own hown).symm.trans hquarantine)
      intro hopen'
      exact hid (hagree.single id' id ((OpenFor.congr hsame).mp hopen') hopen)

/-- The update of `append_version`. -/
theorem Inv.appendVersion (h : s.Inv) (hstage : s.parties p = .idle)
    (hstep : s.appendVersion p mediaId key sizeBytes = some t) : t.Inv := by
  have hfile : (s.parties p).file = none := by rw [hstage]; rfl
  have hnone : (s.parties p).quarantine = none := by rw [hstage]; rfl
  rw [Scanning.appendVersion] at hstep
  split at hstep
  · cases hstep
  · rename_i file hseen
    split_ifs at hstep with hfree
    cases hstep
    have hread : s.media.read mediaId = some file := (congrFun (h.view_media hfile) mediaId).symm.trans hseen
    refine h.writeFile (Rows.mem_of_seen h.files hseen) hfree (by simp [hfile]) rfl (by simp [hnone])
      (h.ready_writeFile hnone ?_)
    simp [Flagged, hread]

/-- **What the steps keep.** -/
theorem Inv.step (h : s.Inv) (hok : s.Unlifted e) (hstep : step s e = some t) : t.Inv := by
  cases e with
  | put key bytes =>
    cases hstep
    exact ⟨h.files, h.rows, h.file, h.quarantine, fun p => (h.fine p).of_step (fun _ _ _ => rfl) (fun _ _ _ => rfl)
      fun _ _ _ _ => Iff.rfl, ⟨h.sound.agree, h.sound.released⟩⟩
  | delete key =>
    cases hstep
    exact ⟨h.files, h.rows, h.file, h.quarantine, fun p => (h.fine p).of_step (fun _ _ _ => rfl) (fun _ _ _ => rfl)
      fun _ _ _ _ => Iff.rfl, ⟨h.sound.agree, h.sound.released⟩⟩
  | upload id siteId key sizeBytes now =>
    simp only [Scanning.step] at hstep
    split_ifs at hstep with hid
    cases hstep
    exact h.upload hid rfl
  | claim w run =>
    simp only [Scanning.step] at hstep
    split at hstep
    · rename_i hstage
      split_ifs at hstep
      cases hstep
      exact h.move (by simp [hstage, ScanStage.file]) (by simp [hstage, ScanStage.quarantine]) trivial
    · cases hstep
  | fetch w =>
    simp only [Scanning.step] at hstep
    split at hstep
    · rename_i run scan rest hstage
      cases hstep
      rw [scanOne]
      split_ifs
      · split <;> exact h.move (by simp [hstage, ScanStage.file]) (by simp [hstage, ScanStage.quarantine]) trivial
      · exact h.move (by simp [hstage, ScanStage.file]) (by simp [hstage, ScanStage.quarantine]) trivial
    · cases hstep
  | answer w verdict =>
    simp only [Scanning.step] at hstep
    split at hstep
    · rename_i run scan bytes rest hstage
      cases hstep
      exact h.of_step rfl h.files h.rows .refl .refl (fun _ _ _ _ _ _ => Iff.rfl)
        (fun id own hheld => by simpa [hstage, ScanStage.file] using h.file id w own hheld)
        (fun id own hheld => by simpa [hstage, ScanStage.quarantine] using h.quarantine id w own hheld) trivial
        ⟨h.sound.agree, h.sound.released⟩
    · cases hstep
  | mark w now =>
    simp only [Scanning.step] at hstep
    split at hstep
    · rename_i run scan sent verdict rest hstage
      exact h.markFile (by rw [hstage]; rfl) (by rw [hstage]; rfl) (hok run scan sent verdict rest hstage) hstep
    · cases hstep
  | hold w id now =>
    simp only [Scanning.step] at hstep
    split at hstep
    · rename_i hstage
      exact h.holdFile hstage hstep
    · cases hstep
  | close r id reason actor now =>
    simp only [Scanning.step] at hstep
    split at hstep
    · rename_i hstage
      exact h.closeQuarantine hstage hstep
    · cases hstep
  | reopen r =>
    simp only [Scanning.step] at hstep
    split at hstep
    · rename_i hstage
      exact h.reopenFile hstage hstep
    · cases hstep
  | append c mediaId key sizeBytes =>
    simp only [Scanning.step] at hstep
    split at hstep
    · rename_i hstage
      exact h.appendVersion hstage hstep
    · cases hstep
  | commit p =>
    have hfine := h.fine p
    simp only [Scanning.step] at hstep
    split at hstep
    · rename_i run scan verdict opened rest hstage
      cases hstep
      rw [hstage] at hfine
      exact h.commit hfine (by rw [hstage]; rfl) trivial fun release => .inl
    · rename_i id mediaId hstage
      cases hstep
      rw [hstage] at hfine
      obtain ⟨hready, hunflagged⟩ := hfine
      refine h.commit hready (by rw [hstage]; rfl) trivial fun release hrelease => ?_
      rcases List.mem_append.mp hrelease with hold | hnew
      · exact .inl hold
      · obtain rfl := List.mem_singleton.mp hnew
        simp only [Scanning.commit, Rows.read_commit]
        exact .inr ⟨fun id => hready.agree.not_openFor hunflagged, hunflagged⟩
    · rename_i mediaId hstage
      cases hstep
      rw [hstage] at hfine
      exact h.commit hfine (by rw [hstage]; rfl) trivial fun release => .inl
    · cases hstep
  | drop p =>
    cases hstep
    exact h.abort trivial

theorem Inv.init : init.Inv := by
  refine ⟨fun _ _ => rfl, fun _ _ => rfl, nofun, nofun, fun _ => trivial, fun m => AgreeAt.of_none ?_ ?_, nofun⟩
  · rintro id ⟨row, hrow, -⟩
    cases hrow
  · rintro ⟨file, hfile, -⟩
    cases hfile

/-- **The two tables agree** in every run in which no flag is lifted by a scan. -/
theorem run_quarantined (h : Run step Unlifted init es s) : s.Sound :=
  (h.invariant Inv.init fun _ _ _ hinv hok hstep => hinv.step hok hstep).sound

/-! ### Two runs -/

/-- A test of `Unlifted`. -/
def isUnlifted (s : Scanning) : ScanEvent → Bool
  | .mark w _ =>
    match s.parties w with
    | .judged _ scan _ verdict _ => verdict.status = .flagged ||
        ((s.media scan.mediaId).seen w).all fun file => file.scanStatus ≠ .flagged
    | _ => true
  | _ => true

theorem unlifted_of_isUnlifted (h : s.isUnlifted e = true) : s.Unlifted e := by
  cases e with
  | mark w now =>
    intro run scan sent verdict rest hw hverdict file hseen
    simpa [isUnlifted, hw, hverdict, hseen] using h
  | _ => trivial

/-- What is read of file 7 and of quarantine 8. -/
def glance (s : Scanning) : Option ScanStatus × Option (Uuid × Option Instant) :=
  ((s.media.read 7).map (·.scanStatus), (s.quarantines.read 8).map fun row => (row.mediaId, row.releasedAt))

/-- A file is flagged, and released. -/
theorem run_quarantined_released : ∃ s, Run step Unlifted init
    [.put "logo.png" [1], .upload 7 1 "logo.png" 1 0, .claim 1 logoSweep, .fetch 1,
      .answer 1 (.flagged "clamav" "Eicar"),
      .mark 1 5, .hold 1 8 5, .commit 1, .close 2 8 "a false alarm" 4 6, .reopen 2, .commit 2] s ∧
      s.glance = (some .skipped, some (7, some 6)) ∧ s.Sound := by
  have hexec : (exec (fun s e => if s.isUnlifted e then s.step e else none) init
      [.put "logo.png" [1], .upload 7 1 "logo.png" 1 0, .claim 1 logoSweep, .fetch 1,
        .answer 1 (.flagged "clamav" "Eicar"),
        .mark 1 5, .hold 1 8 5, .commit 1, .close 2 8 "a false alarm" 4 6, .reopen 2, .commit 2]).map glance =
      some (some .skipped, some (7, some 6)) := by
    decide +kernel
  obtain ⟨s, hrun, hglance⟩ := Run.of_exec_of_map (fun _ _ => unlifted_of_isUnlifted) hexec
  exact ⟨s, hrun, hglance, run_quarantined hrun⟩

/-- Two sweeps read the same pending file, and the scanner answers only the first. -/
theorem lifted_flag : ∃ s, Run step Any init
    [.put "logo.png" [1], .upload 7 1 "logo.png" 1 0, .claim 1 logoSweep, .claim 2 logoSweep, .fetch 1, .fetch 2,
      .answer 1 (.flagged "clamav" "Eicar"), .mark 1 5, .hold 1 8 5, .commit 1,
        .answer 2 (.error "no answer"), .mark 2 6,
      .commit 2] s ∧ ¬ s.Sound := by
  have hexec : (exec step init
      [.put "logo.png" [1], .upload 7 1 "logo.png" 1 0, .claim 1 logoSweep, .claim 2 logoSweep, .fetch 1, .fetch 2,
        .answer 1 (.flagged "clamav" "Eicar"), .mark 1 5, .hold 1 8 5, .commit 1,
          .answer 2 (.error "no answer"), .mark 2 6,
        .commit 2]).map glance = some (some .error, some (7, none)) := by
    decide +kernel
  obtain ⟨s, hrun, hglance⟩ := Run.of_exec_map hexec
  obtain ⟨hfile, hrow⟩ := Prod.mk.inj hglance
  obtain ⟨file, hread, hstatus⟩ := Option.map_eq_some_iff.mp hfile
  obtain ⟨row, hrow, hheld⟩ := Option.map_eq_some_iff.mp hrow
  refine ⟨s, hrun, fun h => ?_⟩
  have hopen : OpenFor s.quarantines.read 8 7 := ⟨row, hrow, Quarantine.holds_iff.mpr (Prod.mk.inj hheld)⟩
  obtain ⟨file', hread', hflagged⟩ := (h.agree 7).flagged.mp ⟨8, hopen⟩
  rw [Option.some.inj (hread'.symm.trans hread), hstatus] at hflagged
  cases hflagged

end Scanning

end Omnion.Media
