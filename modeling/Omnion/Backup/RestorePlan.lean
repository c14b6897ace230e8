import Omnion.Backup.Preview
import Omnion.Backup.RestoreJobs

/-!
# The restore plan

`build_plan` of `crates/backup/src/apply.rs`: what an operator selected of a preview, narrowed to
what is restored, or why nothing is.

## What is proved

* `buildPlan_asAsked_iff` — a plan restores what was asked for and nothing else, each part once,
  just when every part that was asked for is available, and none twice; or the request is refused.
* `unreadable_dropped` — a part that is held and cannot be read, left out without a word.
-/

namespace Omnion.Backup

open Identity

/-- `MAX_SELECTED_PARTS`. -/
def maxSelectedParts : ℕ := 5

/-- What the operator asked for. -/
structure RestoreRequest where
  /-- The run being restored, as the operator named it. -/
  backupId : String
  /-- The parts the operator left ticked. -/
  parts : List String
  /-- What was typed into the confirmation box. -/
  confirmation : String

/-- Why a plan was refused. -/
inductive PlanRefusal where
  | nothingRestorable
  | confirmationMismatch
  | unknownPart
  | partNotInArchive
  | emptySelection
  | mediaIndexUnreadable
  deriving DecidableEq

/-- The sentence of a refusal. -/
def PlanRefusal.message (asked found : String) : PlanRefusal → String
  | .nothingRestorable => s!"nothing on this run can be restored: {found}"
  | .confirmationMismatch =>
    s!"the confirmation phrase does not match this restore point. The phrase for this run is {asked}."
  | .unknownPart => s!"{asked} is not one of this platform's five backup parts"
  | .partNotInArchive => s!"this run does not hold {asked}. On the destination: {found}"
  | .emptySelection => s!"select at least one part. This run holds: {found}"
  | .mediaIndexUnreadable =>
    s!"the media part's index could not be read, so there is nothing to restore into. The run holds: {found}"

/-- The refusal, with its sentence. -/
structure PlanError where
  reason : PlanRefusal
  message : String
  deriving DecidableEq

/-- An accepted restore. -/
structure RestorePlan where
  backupId : String
  /-- The parts that will be restored. -/
  parts : List String
  /-- Archived objects the `media` part will write back. -/
  mediaObjects : ℤ
  mediaBytes : ℤ
  mediaSites : List String
  /-- Whether the list of sites was capped. -/
  mediaSitesTruncated : Bool
  liveDropped : ℤ
  restoresMedia : Bool
  deriving DecidableEq

/-- What the caller knows about the archive. -/
structure ArchiveFacts where
  /-- The preview's parts, in manifest order. -/
  previewParts : List RestorablePart
  /-- How many objects the media index holds, when it could be read. -/
  mediaObjects : Option ℤ
  mediaBytes : ℤ
  mediaSites : List String
  mediaSitesTruncated : Bool

/-- Names in a sentence. -/
def join (names : List String) : String := if names = [] then "nothing" else ", ".intercalate names

/-- A refusal. -/
def refuse {α : Type} (reason : PlanRefusal) (asked found : String) : Except PlanError α :=
  .error ⟨reason, reason.message asked found⟩

/-- A refusal on a condition. -/
def refuseIf (p : Prop) [Decidable p] (reason : PlanRefusal) (asked found : String) : Except PlanError Unit :=
  if p then refuse reason asked found else .ok ()

/-- The loop that refuses the first name without a property. -/
def eachName (p : String → Bool) (reason : PlanRefusal) (found : String) : List String → Except PlanError Unit
  | [] => .ok ()
  | name :: rest => if p name then eachName p reason found rest else refuse reason name found

namespace ArchiveFacts

variable (facts : ArchiveFacts)

/-- The parts that can be read. -/
def readable : List String := (facts.previewParts.filter (·.available)).map (·.part)

/-- All parts. -/
def held : List String := facts.previewParts.map (·.part)

/-- Those that can be read and were asked for. -/
def selected (asked : List String) : List String := facts.readable.filter (· ∈ asked)

end ArchiveFacts

/-- The objects and the bytes of the media part, if that is restored. -/
def mediaCounts (facts : ArchiveFacts) (restoresMedia : Bool) : Except PlanError (ℤ × ℤ) :=
  if restoresMedia then
    match facts.mediaObjects with
    | none => refuse .mediaIndexUnreadable "" (join facts.held)
    | some count => .ok (count, facts.mediaBytes)
  else .ok (0, 0)

/-- Build the plan, or say why there is none. -/
def buildPlan (hashes : Hashes) (request : RestoreRequest) (facts : ArchiveFacts) (liveDropped : ℤ) :
    Except PlanError RestorePlan := do
  let found := join facts.held
  let phrase := confirmPhrase hashes request.backupId
  refuseIf (phrase = "" ∨ phrase ≠ request.confirmation) .confirmationMismatch phrase ""
  refuseIf (request.parts = []) .emptySelection "" found
  refuseIf (maxSelectedParts < request.parts.length) .unknownPart s!"{request.parts.length} parts" found
  eachName (· ∈ knownParts) .unknownPart found request.parts
  eachName (· ∈ facts.held) .partNotInArchive found request.parts
  let parts := facts.selected request.parts
  refuseIf (parts = []) .nothingRestorable "" found
  let restoresMedia := parts.any (· = "media")
  let (mediaObjects, mediaBytes) ← mediaCounts facts restoresMedia
  return {
    backupId := request.backupId
    parts
    mediaObjects
    mediaBytes
    mediaSites := facts.mediaSites
    mediaSitesTruncated := facts.mediaSitesTruncated
    liveDropped
    restoresMedia }

/-! ### What a plan is to be -/

/-- No check refuses the request. -/
structure Accepted (hashes : Hashes) (request : RestoreRequest) (facts : ArchiveFacts) : Prop where
  /-- The phrase of the run was typed. -/
  phrase : confirmPhrase hashes request.backupId ≠ "" ∧ confirmPhrase hashes request.backupId = request.confirmation
  nonempty : request.parts ≠ []
  few : request.parts.length ≤ maxSelectedParts
  known : ∀ name ∈ request.parts, name ∈ knownParts
  held : ∀ name ∈ request.parts, name ∈ facts.held
  /-- One of the parts can be read, -/
  readable : ∃ name ∈ request.parts, name ∈ facts.readable
  /-- and if that is the media part, so can its index. -/
  media : "media" ∈ facts.selected request.parts → facts.mediaObjects ≠ none

/-- **What the module promises**: every part that was asked for can be restored, and the plan's parts are
these, each one once, in the order of the manifest. -/
structure AsAsked (request : RestoreRequest) (facts : ArchiveFacts) (plan : RestorePlan) : Prop where
  restorable : ∀ name ∈ request.parts, name ∈ facts.readable
  mem_iff : ∀ name, name ∈ plan.parts ↔ name ∈ request.parts
  nodup : plan.parts.Nodup
  sublist : plan.parts.Sublist facts.held

section

variable {hashes : Hashes} {request : RestoreRequest} {facts : ArchiveFacts} {liveDropped : ℤ} {plan : RestorePlan}
  {α : Type} {a : α} {next : Except PlanError α} {reason : PlanRefusal} {asked found : String} {names : List String}

theorem refuseIf_bind_eq_ok {p : Prop} [Decidable p] :
    (refuseIf p reason asked found >>= fun _ => next) = .ok a ↔ ¬ p ∧ next = .ok a := by
  by_cases hp : p <;> simp [hp, refuseIf, refuse, bind, Except.bind]

theorem eachName_bind_eq_ok {p : String → Bool} :
    (eachName p reason found names >>= fun _ => next) = .ok a ↔ (∀ name ∈ names, p name = true) ∧ next = .ok a := by
  induction names with
  | nil => simp [eachName, bind, Except.bind]
  | cons name rest ih =>
    rw [eachName, List.forall_mem_cons, and_assoc, ← ih]
    split_ifs with hname
    · rw [and_iff_right hname]
    · exact iff_of_false nofun fun h => hname h.1

theorem mediaCounts_bind_eq_ok {restoresMedia : Bool} {rest : ℤ × ℤ → Except PlanError α} :
    (mediaCounts facts restoresMedia >>= rest) = .ok a ↔
      (restoresMedia = true → facts.mediaObjects ≠ none) ∧
        rest (if restoresMedia then (facts.mediaObjects.getD 0, facts.mediaBytes) else (0, 0)) = .ok a := by
  unfold mediaCounts
  cases restoresMedia with
  | false => simp [bind, Except.bind]
  | true => cases facts.mediaObjects <;> simp [refuse, bind, Except.bind]

/-- The plan, if there is one. -/
def planOf (request : RestoreRequest) (facts : ArchiveFacts) (liveDropped : ℤ) : RestorePlan :=
  let restoresMedia := (facts.selected request.parts).any (· = "media")
  let counts := if restoresMedia then (facts.mediaObjects.getD 0, facts.mediaBytes) else (0, 0)
  { backupId := request.backupId
    parts := facts.selected request.parts
    mediaObjects := counts.1
    mediaBytes := counts.2
    mediaSites := facts.mediaSites
    mediaSitesTruncated := facts.mediaSitesTruncated
    liveDropped
    restoresMedia }

theorem mem_selected {name : String} : name ∈ facts.selected names ↔ name ∈ facts.readable ∧ name ∈ names := by
  simp [ArchiveFacts.selected]

theorem selected_ne_nil : facts.selected names ≠ [] ↔ ∃ name ∈ names, name ∈ facts.readable := by
  constructor
  · intro hne
    obtain ⟨name, hname⟩ := List.exists_mem_of_ne_nil _ hne
    exact ⟨name, (mem_selected.mp hname).2, (mem_selected.mp hname).1⟩
  · rintro ⟨name, hname, hreadable⟩
    exact List.ne_nil_of_mem (mem_selected.mpr ⟨hreadable, hname⟩)

theorem restoresMedia_iff : (facts.selected names).any (· = "media") = true ↔ "media" ∈ facts.selected names := by
  simp

/-- **When there is a plan**, and which. -/
theorem buildPlan_eq_ok : buildPlan hashes request facts liveDropped = .ok plan ↔
    Accepted hashes request facts ∧ planOf request facts liveDropped = plan := by
  simp only [buildPlan, refuseIf_bind_eq_ok, eachName_bind_eq_ok, mediaCounts_bind_eq_ok, decide_eq_true_eq, not_or,
    not_not, Nat.not_lt, ← ne_eq, selected_ne_nil]
  constructor
  · rintro ⟨hphrase, hnonempty, hfew, hknown, hheld, hreadable, hmedia, hplan⟩
    exact ⟨⟨hphrase, hnonempty, hfew, hknown, hheld, hreadable, fun h => hmedia (restoresMedia_iff.mpr h)⟩,
      Except.ok.inj hplan⟩
  · rintro ⟨h, rfl⟩
    exact ⟨h.phrase, h.nonempty, h.few, h.known, h.held, h.readable, fun hany => h.media (restoresMedia_iff.mp hany),
      rfl⟩

/-- **A plan is as asked** just when every part that was asked for is available, and none is twice. -/
theorem asAsked_planOf_iff : AsAsked request facts (planOf request facts liveDropped) ↔
    (∀ name ∈ request.parts, name ∈ facts.readable) ∧ (facts.selected request.parts).Nodup := by
  constructor
  · exact fun h => ⟨h.restorable, h.nodup⟩
  · rintro ⟨hreadable, hnodup⟩
    refine ⟨hreadable, fun name => ?_, hnodup, ?_⟩
    · exact mem_selected.trans ⟨And.right, fun hname => ⟨hreadable name hname, hname⟩⟩
    · exact List.filter_sublist.trans (List.filter_sublist.map _)

/-- **A plan restores exactly what was asked for** just when the request is refused, or every part that was
asked for is available, and none of them is twice in the preview. -/
theorem buildPlan_asAsked_iff (hashes : Hashes) (request : RestoreRequest) (facts : ArchiveFacts) (liveDropped : ℤ) :
    (∀ plan, buildPlan hashes request facts liveDropped = .ok plan → AsAsked request facts plan) ↔
      (Accepted hashes request facts →
        (∀ name ∈ request.parts, name ∈ facts.readable) ∧ (facts.selected request.parts).Nodup) := by
  constructor
  · intro h haccepted
    exact asAsked_planOf_iff.mp (h _ (buildPlan_eq_ok.mpr ⟨haccepted, rfl⟩))
  · intro h plan hplan
    obtain ⟨haccepted, rfl⟩ := buildPlan_eq_ok.mp hplan
    exact asAsked_planOf_iff.mpr (h haccepted)

end

/-! ### A part that is left out -/

def previewed (part : String) (available : Bool) : RestorablePart where
  part
  available
  reason := if available then none else some "the destination did not answer"
  itemCount := 4
  sizeBytes := 512
  checksum := none
  liveMatches := 0
  liveDropped := 0
  mode := RestoreMode.forPart part

/-- The configuration can be read, and the themes cannot. -/
def halfReadable : ArchiveFacts := ⟨[previewed "configuration" true, previewed "themes" false], none, 0, [], false⟩

def bothParts : RestoreRequest where
  backupId := "0199abcd-1234-7000-8000-000000000001"
  parts := ["configuration", "themes"]
  confirmation := "RESTORE ae11f7e8"

/-- The themes are left out, and the restore is accepted. -/
theorem unreadable_dropped :
    ¬ ∀ plan, buildPlan confirmHashes bothParts halfReadable 0 = .ok plan → AsAsked bothParts halfReadable plan := by
  intro h
  have hplan : buildPlan confirmHashes bothParts halfReadable 0 =
      .ok ⟨bothParts.backupId, ["configuration"], 0, 0, [], false, 0, false⟩ := by decide +kernel
  exact absurd ((h _ hplan).restorable "themes" (by decide)) (by decide)

end Omnion.Backup
