import Mathlib.Data.Set.Defs
import Omnion.Core.Json
import Omnion.Core.Text
import Omnion.Library.Run
import Omnion.Library.Serial
import Omnion.Library.Versions

/-!
# Patching a group

`patch_group` of `apps/api/src/routes/scim.rs` with `replace_members` of
`crates/permissions/src/groups.rs`: a directory adds and removes members of a group. A call
reads the members there are, makes the new list of them, and replaces the old one by it.

## The model

Any number of calls run next to each other. The reading is one statement, and the replacement
a transaction of two under READ COMMITTED: the first removes the rows it saw when it began, one
after the other, and the second puts in those that are missing. A row that somebody else holds
is waited for. Rows are told from earlier ones of the same account by a stamp. A call can be
dropped at any step.

## What is proved

* `run_members` — where every replacement begins while no other one is under way, finds the
  members its call has read, and adds accounts of the token's organization only, the members
  are what the calls make of them one after another, and no others are stored.
* `lost_and_foreign` — two calls that overlap lose a member, and an account of another
  organization is stored.

## Honest scope

The order of the members in a list, the log and the answer are left out, and so are other
ways to change a group.
-/

namespace Omnion.Permissions.Scim

open Versions Serial

/-! ### Requests -/

/-- A SCIM-shaped failure. -/
structure ScimError where
  status : ℕ
  scimType : Option String
  detail : String

/-- `400`: the request is not usable. -/
def badRequest (scimType detail : String) : ScimError := { status := 400, scimType := some scimType, detail }

/-- `404`: no such resource in the token's organization. -/
def notFound (detail : String) : ScimError := { status := 404, scimType := none, detail }

/-- The generic failure. -/
def internal : ScimError :=
  { status := 500, scimType := none, detail := "the provisioning operation could not be completed" }

/-- One patch operation. -/
structure ScimOperation where
  /-- `add`, `replace` or `remove`. -/
  op : String
  path : Option String
  value : Option Json

/-- A `PatchOp` body. -/
structure ScimPatch where
  schemas : List String
  operations : List ScimOperation

/-- `SCIM_PATCH`. -/
def scimPatch : String := "urn:ietf:params:scim:api:messages:2.0:PatchOp"

/-- Refuse a document that declares itself as something other than a PatchOp. -/
def ScimPatch.checkSchemas (patch : ScimPatch) : Except ScimError Unit :=
  if patch.schemas = [] ∨ scimPatch ∈ patch.schemas then .ok ()
  else .error (badRequest "invalidSyntax" ("`schemas` must name " ++ scimPatch))

/-- One member entry of a group document. -/
structure ScimMember where
  value : Option String
  display : Option String

/-- An optional text: a missing one and `null` are none. -/
def optionalText : Option Json → Option (Option String)
  | none | some .null => some none
  | some (.string text) => some (some text)
  | some _ => none

/-- `serde_json::from_value::<ScimMember>`. A list of the fields is read, too. -/
def ScimMember.fromValue : Json → Option ScimMember
  | .object fields => do
    let value ← optionalText (fields.lookup "value")
    let display ← optionalText (fields.lookup "display")
    return { value, display }
  | .array items => do
    if items.length > 2 then none
    let value ← optionalText items[0]?
    let display ← optionalText items[1]?
    return { value, display }
  | _ => none

/-- The entries of a member list. -/
def readMembers (items : List Json) : Except ScimError (List ScimMember) :=
  items.mapM fun item =>
    match ScimMember.fromValue item with
    | some member => .ok member
    | none => .error (badRequest "invalidValue" "a member needs a `value` id")

/-- The members sit either in `value` or in a `members` key of a value object. -/
def memberValues : Option Json → Except ScimError (List ScimMember)
  | some (.array items) => readMembers items
  | some (.object fields) =>
    match (fields.lookup "members").bind Json.asArray with
    | some items => readMembers items
    | none => .ok []
  | _ => .error (badRequest "invalidValue" "a member operation needs a value")

/-- Put an id at the end of a list that has it not yet. -/
def pushNew (ids : List Uuid) (id : Uuid) : List Uuid := if id ∈ ids then ids else ids ++ [id]

/-- Read the member ids out of a member list, refusing anything that is not a uuid. -/
def memberIds (uuids : UuidText) (members : List ScimMember) : Except ScimError (List Uuid) :=
  members.foldlM (fun ids member =>
    let raw := Text.trim (member.value.getD "")
    match uuids.parse raw with
    | some id => .ok (pushNew ids id)
    | none => .error (badRequest "invalidValue" (Text.debug raw ++ " is not an account id"))) []

/-- `to_ascii_lowercase`. -/
def asciiLowercase (text : String) : String := String.ofList (text.toList.map Char.toLower)

/-- What an operation does with the member list. -/
inductive Change where
  | add (ids : List Uuid)
  | replace (ids : List Uuid)
  | remove (ids : List Uuid)

/-- The operation on a member list. -/
def Change.apply : Change → List Uuid → List Uuid
  | .add ids, next => ids.foldl pushNew next
  | .replace ids, _ => ids
  | .remove ids, next => next.filter (· ∉ ids)

def readOperation (uuids : UuidText) (operation : ScimOperation) : Except ScimError Change := do
  let op := asciiLowercase operation.op
  if op ∉ ["add", "replace", "remove"] then
    throw (badRequest "invalidSyntax" ("unknown patch op " ++ Text.debug operation.op))
  match operation.path.map fun path => asciiLowercase (Text.trim path) with
  | none | some "members" => pure ()
  | some other => throw (badRequest "invalidPath" ("this endpoint cannot patch " ++ Text.debug other))
  let ids ← memberIds uuids (← memberValues operation.value)
  return match op with
    | "add" => .add ids
    | "replace" => .replace ids
    | _ => .remove ids

/-- The operations, one after another, on a member list. -/
def patchMembers (uuids : UuidText) (operations : List ScimOperation) (current : List Uuid) :
    Except ScimError (List Uuid) :=
  operations.foldlM (fun next operation => (readOperation uuids operation).map fun change => change.apply next) current

/-! ### Calls -/

/-- A row of `users`. -/
structure User where
  id : Uuid
  organizationId : Option Uuid

/-- What is there before any call. -/
structure Directory where
  uuids : UuidText
  users : List User
  /-- The group, -/
  groupId : Uuid
  /-- whose it is, -/
  organizationId : Uuid
  /-- and its members, -/
  members : List Uuid
  /-- each with a row of `users`. -/
  known : ∀ id ∈ members, id ∈ users.map (·.id)

/-- What a client asks for. -/
structure PatchRequest where
  /-- Organization the token provisions into. -/
  organizationId : Uuid
  patch : ScimPatch

variable (d : Directory)

/-- The account is one of the organization. -/
def Directory.belongs (id organizationId : Uuid) : Prop :=
  ∃ user ∈ d.users, user.id = id ∧ user.organizationId = some organizationId

/-- What a call makes of the members it reads. -/
def Directory.plan (request : PatchRequest) (current : List Uuid) : Except ScimError (List Uuid) := do
  -- `require_group`
  if d.organizationId ≠ request.organizationId then throw (notFound ("no group " ++ d.uuids.print d.groupId))
  request.patch.checkSchemas
  patchMembers d.uuids request.patch.operations current

/-- How far a call has come. -/
inductive Call where
  | idle
  /-- It has read the members `seen`, and is to put `next` in their place. -/
  | planned (request : PatchRequest) (seen next : List Uuid)
  /-- The rows of `doomed` are still to be removed. -/
  | deleting (request : PatchRequest) (next : List Uuid) (doomed : List (Uuid × ℕ))
  /-- The ids of `todo` are still to be put in. -/
  | inserting (request : PatchRequest) (next todo : List Uuid)
  | done (request : PatchRequest)
  | failed (error : ScimError)

/-- The call is in its transaction. -/
def Call.Writing : Call → Prop
  | .deleting .. | .inserting .. => True
  | _ => False

/-- The request of a call that succeeded. -/
def Call.success : Call → Option PatchRequest
  | .done request => some request
  | _ => none

/-- The members, and the calls. -/
structure Group where
  /-- The rows of `group_members`, by account; what a row holds is its stamp. -/
  rows : Rows Uuid ℕ ℕ
  stamps : ℕ
  calls : ℕ → Call

/-- What happens. -/
inductive GroupStep where
  /-- A call reads the members and makes its plan, -/
  | read (i : ℕ) (request : PatchRequest)
  /-- begins to remove those it wants no longer, -/
  | begin (i : ℕ)
  /-- removes the next one, -/
  | delete (i : ℕ)
  /-- begins to put in those it wants, -/
  | turn (i : ℕ)
  /-- puts in the next one, -/
  | insert (i : ℕ)
  /-- and commits. -/
  | commit (i : ℕ)
  /-- A call is dropped. -/
  | drop (i : ℕ)

/-- Nobody has called. -/
def Directory.start : Group where
  rows := fun id => { committed := if id ∈ d.members then some 0 else none }
  stamps := 1
  calls := fun _ => .idle

namespace Group

/-- Call `i` goes on. -/
def move (s : Group) (i : ℕ) (call : Call) : Group := { s with calls := Function.update s.calls i call }

@[simp] theorem calls_move_self (s : Group) (i : ℕ) (call : Call) : (s.move i call).calls i = call :=
  Function.update_self ..

theorem calls_move_of_ne {s : Group} {i j : ℕ} {call : Call} (h : j ≠ i) : (s.move i call).calls j = s.calls j :=
  Function.update_of_ne h ..

/-- Call `i` fails, and nothing it has written stays. -/
def fail (s : Group) (i : ℕ) (error : ScimError) : Group := { s.move i (.failed error) with rows := s.rows.rollback i }

/-- The member ids everybody reads. -/
def current (s : Group) (users : List User) : List Uuid := (users.map (·.id)).filter fun id => (s.rows.read id).isSome

/-- The rows of accounts that are not wanted. -/
def unwanted (s : Group) (users : List User) (next : List Uuid) : List (Uuid × ℕ) :=
  (users.map (·.id)).filterMap fun id => if id ∈ next then none else (s.rows.read id).map (id, ·)

end Group

def groupStep (s : Group) : GroupStep → Option Group
  | .read i request =>
    match s.calls i with
    | .idle =>
      let seen := s.current d.users
      match d.plan request seen with
      | .ok next => some (s.move i (.planned request seen next))
      | .error error => some (s.move i (.failed error))
    | _ => none
  | .begin i =>
    match s.calls i with
    | .planned request _ next => some (s.move i (.deleting request next (s.unwanted d.users next)))
    | _ => none
  | .delete i =>
    match s.calls i with
    | .deleting request next ((id, stamp) :: doomed) =>
      -- a row that is gone by now is passed over
      if s.rows.read id = some stamp then
        if (s.rows id).free i then
          some { s.move i (.deleting request next doomed) with rows := s.rows.write i id none }
        else none
      else some (s.move i (.deleting request next doomed))
    | _ => none
  | .turn i =>
    match s.calls i with
    | .deleting request next [] => some (s.move i (.inserting request next next))
    | _ => none
  | .insert i =>
    match s.calls i with
    | .inserting request next (id :: todo) =>
      -- `user_id` references `users`
      if id ∉ d.users.map (·.id) then some (s.fail i internal)
      else if (s.rows id).free i then
        match s.rows.view i id with
        | some _ => some (s.move i (.inserting request next todo))
        | none =>
          some { s.move i (.inserting request next todo) with
            rows := s.rows.write i id (some s.stamps), stamps := s.stamps + 1 }
      else none
    | _ => none
  | .commit i =>
    match s.calls i with
    | .inserting request _ [] => some { s.move i (.done request) with rows := s.rows.commit i }
    | _ => none
  | .drop i =>
    match s.calls i with
    | .planned .. | .deleting .. | .inserting .. => some (s.fail i internal)
    | _ => none

/-! ### What is to hold -/

/-- The accounts everybody reads as members. -/
def Group.stored (s : Group) : Set Uuid := { id | (s.rows.read id).isSome }

/-- What a call that runs alone makes of the members. -/
def Directory.effect (request : PatchRequest) (before after : Set Uuid) : Prop :=
  ∃ current next, (∀ id, id ∈ current ↔ id ∈ before) ∧ d.plan request current = .ok next ∧ ∀ id, id ∈ after ↔ id ∈ next

/-- **The members** are what the calls that succeeded make of them, one after another. -/
def Group.InOrder (s : Group) : Prop :=
  Serializable d.effect { id | id ∈ d.members } (fun i => (s.calls i).success) s.stored

/-- **No account is stored** that is not of the organization of a token. -/
def Group.Tenant (s : Group) : Prop :=
  ∀ id ∈ s.stored, id ∈ d.members ∨ ∃ i request, (s.calls i).success = some request ∧
    d.belongs id request.organizationId

/-- A replacement begins while no other one is under way, finds the members its call has
read, and adds accounts of the organization only. -/
def Fair (s : Group) : GroupStep → Prop
  | .begin i =>
    (∀ j, j ≠ i → ¬ (s.calls j).Writing) ∧
      ∀ request seen next, s.calls i = .planned request seen next →
        (∀ id, id ∈ seen ↔ id ∈ s.stored) ∧ ∀ id ∈ next, id ∈ seen ∨ d.belongs id request.organizationId
  | _ => True

/-- A call is to replace the members there are by those it made of them. -/
structure Ready (s : Group) (request : PatchRequest) (next : List Uuid) : Prop where
  effect : d.effect request s.stored { id | id ∈ next }
  tenant : ∀ id ∈ next, id ∈ s.stored ∨ d.belongs id request.organizationId

def Knows (s : Group) (i : ℕ) : Call → Prop
  | .planned request seen next => d.plan request seen = .ok next
  | .deleting request next doomed =>
    Ready d s request next ∧ (∀ x ∈ doomed, x.1 ∉ next) ∧ (∀ id ∈ next, s.rows.view i id = s.rows.read id) ∧
      ∀ id, id ∉ next → s.rows.view i id = none ∨ ∃ stamp, (id, stamp) ∈ doomed ∧ s.rows.read id = some stamp
  | .inserting request next todo =>
    Ready d s request next ∧ (∀ id ∈ todo, id ∈ next) ∧ (∀ id, id ∉ next → s.rows.view i id = none) ∧
      ∀ id ∈ next, id ∈ todo ∨ (s.rows.view i id).isSome
  | _ => True

/-- **The invariant**: one call at most is in its transaction, and holds rows. -/
structure Sound (s : Group) : Prop where
  alone : ∀ i j, (s.calls i).Writing → (s.calls j).Writing → i = j
  held : ∀ id i own, (s.rows id).held = some (i, own) → (s.calls i).Writing
  rows : ∀ id, id ∉ d.users.map (·.id) → s.rows id = {}
  knows : ∀ i, Knows d s i (s.calls i)
  order : s.InOrder d
  tenant : s.Tenant d

variable {d} {s s' : Group} {i j : ℕ} {call : Call} {request : PatchRequest} {next : List Uuid} {id : Uuid}

/-! ### Steps -/

theorem Ready.of_read (h : Ready d s request next) (hread : s'.rows.read = s.rows.read) : Ready d s' request next := by
  have hstored : s'.stored = s.stored := by rw [Group.stored, Group.stored, hread]
  exact ⟨hstored ▸ h.effect, hstored ▸ h.tenant⟩

theorem Knows.frame (h : Knows d s i call) (hread : s'.rows.read = s.rows.read)
    (hview : s'.rows.view i = s.rows.view i) : Knows d s' i call := by
  cases call with
  | deleting request next doomed =>
    rw [Knows, hview, hread]
    exact ⟨h.1.of_read hread, h.2⟩
  | inserting request next todo =>
    rw [Knows, hview]
    exact ⟨h.1.of_read hread, h.2⟩
  | planned request seen next => exact h
  | _ => trivial

/-- A step of a call that everybody else sees nothing of. -/
theorem Sound.advance {t : Group} (h : Sound d s) (hcalls : t.calls = Function.update s.calls i call)
    (huntouched : Untouched i s.rows t.rows) (hread : t.rows.read = s.rows.read)
    (hrows : ∀ id, id ∉ d.users.map (·.id) → t.rows id = {})
    (hmine : ∀ id own, (t.rows id).held = some (i, own) → call.Writing)
    (halone : call.Writing → ∀ j, j ≠ i → ¬ (s.calls j).Writing)
    (hbefore : (s.calls i).success = none) (hafter : call.success = none) (hknows : Knows d t i call) : Sound d t := by
  have hother : ∀ j, j ≠ i → t.calls j = s.calls j := fun j hj => by rw [hcalls, Function.update_of_ne hj]
  have hself : t.calls i = call := by rw [hcalls, Function.update_self]
  have hsuccess : (fun j => (t.calls j).success) = fun j => (s.calls j).success := by
    funext j
    by_cases hj : j = i
    · rw [hj, hself, hafter, hbefore]
    · rw [hother j hj]
  have hstored : t.stored = s.stored := by rw [Group.stored, Group.stored, hread]
  constructor
  · intro a b ha hb
    by_cases hai : a = i <;> by_cases hbi : b = i
    · rw [hai, hbi]
    · subst hai
      rw [hself] at ha
      rw [hother b hbi] at hb
      exact absurd hb (halone ha b hbi)
    · subst hbi
      rw [hself] at hb
      rw [hother a hai] at ha
      exact absurd ha (halone hb a hai)
    · rw [hother a hai] at ha
      rw [hother b hbi] at hb
      exact h.alone a b ha hb
  · intro id j own hheld
    by_cases hj : j = i
    · subst hj
      rw [hself]
      exact hmine id own hheld
    · rw [huntouched j hj id own (.inr hheld)] at hheld
      rw [hother j hj]
      exact h.held id j own hheld
  · exact hrows
  · intro j
    by_cases hj : j = i
    · subst hj
      rwa [hself]
    · rw [hother j hj]
      exact (h.knows j).frame hread (funext fun id => huntouched.seen hj (congrFun hread id))
  · rw [Group.InOrder, hsuccess, hstored]
    exact h.order
  · intro id hid
    rw [hstored] at hid
    refine (h.tenant id hid).imp_right ?_
    rintro ⟨j, request, hdone, hbelongs⟩
    exact ⟨j, request, (congrFun hsuccess j).trans hdone, hbelongs⟩

theorem Sound.others (h : Sound d s) (hi : (s.calls i).Writing) (j : ℕ) (hj : j ≠ i) : ¬ (s.calls j).Writing :=
  fun hwriting => hj (h.alone j i hwriting hi)

theorem Sound.move (h : Sound d s) (hmine : (s.calls i).Writing → call.Writing)
    (halone : call.Writing → ∀ j, j ≠ i → ¬ (s.calls j).Writing)
    (hbefore : (s.calls i).success = none) (hafter : call.success = none) (hknows : Knows d s i call) :
    Sound d (s.move i call) :=
  h.advance rfl .refl rfl h.rows (fun id own hheld => hmine (h.held id i own hheld)) halone hbefore hafter
    (hknows.frame rfl rfl)

theorem Sound.write {v : Option ℕ} {stamps : ℕ} (h : Sound d s) (hfree : (s.rows id).free i = true)
    (hid : id ∈ d.users.map (·.id)) (hi : (s.calls i).Writing) (hcall : call.Writing)
    (hbefore : (s.calls i).success = none) (hafter : call.success = none)
    (hknows : Knows d { s with rows := s.rows.write i id v } i call) :
    Sound d { s.move i call with rows := s.rows.write i id v, stamps := stamps } := by
  refine h.advance (t := { s.move i call with rows := s.rows.write i id v, stamps := stamps }) rfl
    (untouched_write hfree) Rows.read_write (fun other hother => ?_) (fun _ _ _ => hcall) (fun _ => h.others hi) hbefore
    hafter (hknows.frame rfl rfl)
  have hne : other ≠ id := by
    rintro rfl
    exact hother hid
  exact (Rows.write_of_ne hne).trans (h.rows other hother)

theorem Sound.fail (h : Sound d s) (hbefore : (s.calls i).success = none) (error : ScimError) :
    Sound d (s.fail i error) := by
  refine h.advance (t := s.fail i error) rfl untouched_rollback Rows.read_rollback (fun id hid => ?_)
    (fun id own hheld => absurd rfl (Rows.held_rollback.mp hheld).2) False.elim hbefore rfl trivial
  exact Rows.rollback_of_empty (h.rows id hid)

theorem Sound.read (h : Sound d s) (hi : s.calls i = .idle) (hs : groupStep d s (.read i request) = some s') :
    Sound d s' := by
  simp only [groupStep, hi] at hs
  rcases hplan : d.plan request (s.current d.users) with error | next
  · simp only [hplan] at hs
    cases hs
    exact h.move (by rw [hi]; exact id) False.elim (by rw [hi]; rfl) rfl trivial
  · simp only [hplan] at hs
    cases hs
    exact h.move (by rw [hi]; exact id) False.elim (by rw [hi]; rfl) rfl hplan

/-- A replacement begins. -/
theorem Sound.begin {seen : List Uuid} (h : Sound d s) (hi : s.calls i = .planned request seen next)
    (hfair : Fair d s (.begin i)) : Sound d (s.move i (.deleting request next (s.unwanted d.users next))) := by
  obtain ⟨halone, hplanned⟩ := hfair
  obtain ⟨hseen, htenant⟩ := hplanned request seen next hi
  have hplan : d.plan request seen = .ok next := by
    have := h.knows i
    rwa [hi] at this
  have hnone : ∀ id, s.rows.view i id = s.rows.read id := by
    intro id
    refine Rows.view_of_not_held fun own hheld => ?_
    have := h.held id i own hheld
    rw [hi] at this
    exact this
  refine h.move (fun _ => trivial) (fun _ => halone) (by rw [hi]; rfl) rfl ⟨⟨?_, ?_⟩, ?_, fun id _ => hnone id, ?_⟩
  · exact ⟨seen, next, hseen, hplan, fun id => Iff.rfl⟩
  · exact fun id hid => (htenant id hid).imp_left (hseen id).mp
  · intro x hx
    obtain ⟨id, -, hx⟩ := List.mem_filterMap.mp hx
    split_ifs at hx with hmem
    obtain ⟨stamp, -, rfl⟩ := Option.map_eq_some_iff.mp hx
    exact hmem
  · intro id hid
    rw [hnone id]
    rcases hread : s.rows.read id with _ | stamp
    · exact .inl rfl
    · refine .inr ⟨stamp, List.mem_filterMap.mpr ⟨id, ?_, ?_⟩, rfl⟩
      · by_contra hother
        rw [Rows.read, h.rows id hother] at hread
        cases hread
      · rw [if_neg hid, hread]
        rfl

/-- A row is removed, or is gone by now. -/
theorem Sound.delete (h : Sound d s) (hs : groupStep d s (.delete i) = some s') : Sound d s' := by
  simp only [groupStep] at hs
  split at hs
  next request next id stamp doomed hi =>
    have hbefore : (s.calls i).success = none := by rw [hi]; rfl
    have hwriting : (s.calls i).Writing := by rw [hi]; trivial
    have hknows := h.knows i
    rw [hi] at hknows
    obtain ⟨hready, hdoomed, hkept, hgone⟩ := hknows
    have hdoomed' : ∀ x ∈ doomed, x.1 ∉ next := fun x hx => hdoomed x (List.mem_cons_of_mem _ hx)
    have hid : id ∉ next := hdoomed (id, stamp) List.mem_cons_self
    split_ifs at hs with hread hfree
    · cases hs
      have hknown : id ∈ d.users.map (·.id) := by
        by_contra hother
        rw [Rows.read, h.rows id hother] at hread
        cases hread
      refine h.write hfree hknown hwriting trivial hbefore rfl ⟨hready.of_read Rows.read_write, hdoomed', ?_, ?_⟩
      · intro other hother
        have hne : other ≠ id := fun heq => hid (heq ▸ hother)
        exact (Rows.view_write_of_ne hne).trans ((hkept other hother).trans (congrFun Rows.read_write other).symm)
      · intro other hother
        by_cases hne : other = id
        · subst hne
          exact .inl Rows.view_write_self
        · refine (hgone other hother).imp (fun hnone => (Rows.view_write_of_ne hne).trans hnone) ?_
          rintro ⟨stamp', hmem, hread'⟩
          refine ⟨stamp', (List.mem_cons.mp hmem).resolve_left fun heq => hne (congrArg Prod.fst heq), ?_⟩
          exact (congrFun Rows.read_write other).trans hread'
    · cases hs
      refine h.move (fun _ => trivial) (fun _ => h.others hwriting) hbefore rfl ⟨hready, hdoomed', hkept, ?_⟩
      intro other hother
      refine (hgone other hother).imp_right ?_
      rintro ⟨stamp', hmem, hread'⟩
      refine ⟨stamp', (List.mem_cons.mp hmem).resolve_left fun heq => ?_, hread'⟩
      cases heq
      exact hread hread'
  next => cases hs

theorem Sound.turn (h : Sound d s) (hi : s.calls i = .deleting request next []) :
    Sound d (s.move i (.inserting request next next)) := by
  have hknows := h.knows i
  rw [hi] at hknows
  obtain ⟨hready, -, -, hgone⟩ := hknows
  refine h.move (fun _ => trivial) (fun _ => h.others (by rw [hi]; trivial)) (by rw [hi]; rfl) rfl
    ⟨hready, fun _ hid => hid, fun id hid => ?_, fun _ hid => .inl hid⟩
  refine (hgone id hid).resolve_right ?_
  rintro ⟨stamp, hmem, -⟩
  cases hmem

/-- A row is put in, or is there already. -/
theorem Sound.insert (h : Sound d s) (hs : groupStep d s (.insert i) = some s') : Sound d s' := by
  simp only [groupStep] at hs
  split at hs
  next request next id todo hi =>
    have hbefore : (s.calls i).success = none := by rw [hi]; rfl
    have hwriting : (s.calls i).Writing := by rw [hi]; trivial
    have hknows := h.knows i
    rw [hi] at hknows
    obtain ⟨hready, htodo, hgone, hthere⟩ := hknows
    have htodo' : ∀ other ∈ todo, other ∈ next := fun other hother => htodo other (List.mem_cons_of_mem _ hother)
    have hid : id ∈ next := htodo id List.mem_cons_self
    split_ifs at hs with hknown hfree
    · rcases hview : s.rows.view i id with _ | stamp
      · simp only [hview] at hs
        cases hs
        refine h.write hfree hknown hwriting trivial hbefore rfl
          ⟨hready.of_read Rows.read_write, htodo', fun other hother => ?_, fun other hother => ?_⟩
        · have hne : other ≠ id := fun heq => hother (heq ▸ hid)
          exact (Rows.view_write_of_ne hne).trans (hgone other hother)
        · by_cases hne : other = id
          · subst hne
            refine .inr ?_
            change (Rows.view (s.rows.write i other (some s.stamps)) i other).isSome
            rw [Rows.view_write_self]
            rfl
          · refine (hthere other hother).imp (fun hmem => (List.mem_cons.mp hmem).resolve_left hne) fun hsome => ?_
            change (Rows.view (s.rows.write i id (some s.stamps)) i other).isSome
            rwa [Rows.view_write_of_ne hne]
      · simp only [hview] at hs
        cases hs
        refine h.move (fun _ => trivial) (fun _ => h.others hwriting) hbefore rfl ⟨hready, htodo', hgone, ?_⟩
        intro other hother
        by_cases hne : other = id
        · subst hne
          exact .inr (by rw [hview]; rfl)
        · exact (hthere other hother).imp_left fun hmem => (List.mem_cons.mp hmem).resolve_left hne
    · cases hs
      exact h.fail hbefore internal
  next => cases hs

/-- A replacement commits: its members are those of its plan. -/
theorem Sound.commit (h : Sound d s) (hi : s.calls i = .inserting request next []) :
    Sound d { s.move i (.done request) with rows := s.rows.commit i } := by
  have hwriting : (s.calls i).Writing := by rw [hi]; trivial
  have hknows := h.knows i
  rw [hi] at hknows
  obtain ⟨hready, -, hgone, hthere⟩ := hknows
  have hstored : ({ s.move i (.done request) with rows := s.rows.commit i } : Group).stored = { id | id ∈ next } := by
    ext id
    change ((s.rows.commit i).read id).isSome ↔ id ∈ next
    rw [Rows.read_commit]
    constructor
    · intro hsome
      by_contra hid
      rw [hgone id hid] at hsome
      cases hsome
    · exact fun hid => (hthere id hid).resolve_left List.not_mem_nil
  have hsuccess : (fun j => ((s.move i (.done request)).calls j).success) =
      Function.update (fun j => (s.calls j).success) i (some request) := by
    funext j
    by_cases hj : j = i
    · subst hj
      rw [Group.calls_move_self, Function.update_self]
      rfl
    · rw [Group.calls_move_of_ne hj, Function.update_of_ne hj]
  have hnot : ∀ j, ¬ ((s.move i (.done request)).calls j).Writing := by
    intro j hj
    by_cases hji : j = i
    · subst hji
      rw [Group.calls_move_self] at hj
      exact hj
    · rw [Group.calls_move_of_ne hji] at hj
      exact h.others hwriting j hji hj
  constructor
  · exact fun a b ha => absurd ha (hnot a)
  · intro id j own hheld
    obtain ⟨hheld, hj⟩ := Rows.held_commit.mp hheld
    exact absurd (h.held id j own hheld) (h.others hwriting j hj)
  · exact fun id hid => Rows.commit_of_empty (h.rows id hid)
  · intro j
    by_cases hj : j = i
    · subst hj
      change Knows d _ j ((s.move j (.done request)).calls j)
      rw [Group.calls_move_self]
      trivial
    · change Knows d _ j ((s.move i (.done request)).calls j)
      have hknows := h.knows j
      have hnotj := h.others hwriting j hj
      rw [Group.calls_move_of_ne hj]
      generalize s.calls j = call at hknows hnotj
      cases call with
      | planned _ _ _ => exact hknows
      | deleting | inserting => exact absurd trivial hnotj
      | _ => trivial
  · rw [Group.InOrder, hstored]
    exact hsuccess ▸ h.order.snoc (by rw [hi]; rfl) hready.effect
  · intro id hid
    rw [hstored] at hid
    have hkeep : ∀ j r, (s.calls j).success = some r → ((s.move i (.done request)).calls j).success = some r := by
      intro j r hdone
      have hj : j ≠ i := by
        rintro rfl
        rw [hi] at hdone
        cases hdone
      rwa [Group.calls_move_of_ne hj]
    rcases hready.tenant id hid with hold | hbelongs
    · refine (h.tenant id hold).imp_right ?_
      rintro ⟨j, r, hdone, hbelongs⟩
      exact ⟨j, r, hkeep j r hdone, hbelongs⟩
    · exact .inr ⟨i, request, congrArg Call.success (Group.calls_move_self s i (.done request)), hbelongs⟩

/-- Every step keeps the invariant. -/
theorem Sound.step {e : GroupStep} (h : Sound d s) (hfair : Fair d s e)
    (hs : groupStep d s e = some s') : Sound d s' := by
  cases e with
  | read i request =>
    refine h.read (i := i) ?_ hs
    simp only [groupStep] at hs
    split at hs
    · assumption
    · cases hs
  | begin i =>
    simp only [groupStep] at hs
    split at hs
    next request seen next hi =>
      cases hs
      exact h.begin hi hfair
    next => cases hs
  | delete i => exact h.delete hs
  | turn i =>
    simp only [groupStep] at hs
    split at hs
    next request next hi =>
      cases hs
      exact h.turn hi
    next => cases hs
  | insert i => exact h.insert hs
  | commit i =>
    simp only [groupStep] at hs
    split at hs
    next request next hi =>
      cases hs
      exact h.commit hi
    next => cases hs
  | drop i =>
    simp only [groupStep] at hs
    split at hs
    · next hi =>
      cases hs
      exact h.fail (by rw [hi]; rfl) internal
    · next hi =>
      cases hs
      exact h.fail (by rw [hi]; rfl) internal
    · next hi =>
      cases hs
      exact h.fail (by rw [hi]; rfl) internal
    · cases hs

theorem stored_start (d : Directory) : d.start.stored = { id | id ∈ d.members } := by
  ext id
  change (if id ∈ d.members then some 0 else none).isSome ↔ id ∈ d.members
  split_ifs with hid <;> simp [hid]

theorem sound_start (d : Directory) : Sound d d.start := by
  constructor
  · exact fun _ _ h => h.elim
  · exact fun _ _ _ h => by cases h
  · intro id hid
    have hnot : id ∉ d.members := fun hmem => hid (d.known id hmem)
    change ({ committed := if id ∈ d.members then some 0 else none } : Row ℕ ℕ) = {}
    rw [if_neg hnot]
  · exact fun _ => trivial
  · rw [Group.InOrder, stored_start]
    exact .refl fun _ => rfl
  · intro id hid
    rw [stored_start] at hid
    exact .inl hid

open Transition

/-- **The members of a group**, where every replacement begins while no other one is under way,
finds the members its call has read, and adds accounts of the organization only: they are what
the calls that succeeded make of them in some order, and are of the organization. -/
theorem run_members {es : List GroupStep} (h : Run (groupStep d) (Fair d) d.start es s) : s.InOrder d ∧ s.Tenant d := by
  have hsound : Sound d s := h.invariant (sound_start d) fun _ _ _ hs hfair hstep => hs.step hfair hstep
  exact ⟨hsound.order, hsound.tenant⟩

/-! ### Two calls -/

/-- Two identifiers and their texts. -/
def twoUuids : UuidText where
  parse text := [("00000000-0000-0000-0000-000000000001", 1), ("00000000-0000-0000-0000-000000000009", 9)].lookup text
  print id := "00000000-0000-0000-0000-00000000000" ++ toString id

/-- An empty group of organization 1; account 9 is of another one. -/
def emptyGroup : Directory where
  uuids := twoUuids
  users := [⟨1, some 1⟩, ⟨9, some 2⟩]
  groupId := 5
  organizationId := 1
  members := []
  known := fun _ hid => absurd hid List.not_mem_nil

/-- A token of organization 1 adds an account. -/
def addMember (account : String) : PatchRequest where
  organizationId := 1
  patch :=
    { schemas := [], operations := [⟨"add", some "members", some (.array [.object [("value", .string account)]])⟩] }

/-- Account 1, and account 9. -/
def addOne : PatchRequest := addMember "00000000-0000-0000-0000-000000000001"

def addNine : PatchRequest := addMember "00000000-0000-0000-0000-000000000009"

theorem mem_pushNew {ids : List Uuid} {x : Uuid} : id ∈ pushNew ids x ↔ id ∈ ids ∨ id = x := by
  rw [pushNew]
  split_ifs with h
  · refine (or_iff_left_of_imp ?_).symm
    rintro rfl
    exact h
  · rw [List.mem_append, List.mem_singleton]

theorem plan_addOne (current : List Uuid) : emptyGroup.plan addOne current = .ok (pushNew current 1) := rfl

theorem plan_addNine (current : List Uuid) : emptyGroup.plan addNine current = .ok (pushNew current 9) := rfl

/-- It takes all of them away. -/
def clear : PatchRequest where
  organizationId := 1
  patch := { schemas := [], operations := [⟨"replace", some "members", some (.array [])⟩] }

/-- Two calls one after the other. -/
theorem run_members_twice :
    ∃ s : Group, (s.calls 0).success = some addOne ∧ (s.calls 1).success = some clear ∧ 1 ∉ s.stored ∧
      s.InOrder emptyGroup ∧ s.Tenant emptyGroup := by
  have hrun : ∃ s, Run (groupStep emptyGroup) (Fair emptyGroup) emptyGroup.start
      [.read 0 addOne, .begin 0, .turn 0, .insert 0, .commit 0, .read 1 clear, .begin 1, .delete 1, .turn 1,
        .commit 1] s ∧ (s.calls 0).success = some addOne ∧ (s.calls 1).success = some clear ∧ s.rows.read 1 = none := by
    refine ⟨_, .cons trivial rfl (.cons ⟨?_, ?_⟩ rfl (.cons trivial rfl (.cons trivial rfl (.cons trivial rfl
      (.cons trivial rfl (.cons ⟨?_, ?_⟩ rfl (.cons trivial rfl (.cons trivial rfl
      (.cons trivial rfl .nil))))))))), rfl, rfl, rfl⟩
    · rintro (_ | j) hj
      · exact absurd rfl hj
      · exact not_false
    · intro request seen next hcall
      obtain ⟨rfl, rfl, rfl⟩ := Call.planned.inj hcall
      refine ⟨fun id => iff_of_false List.not_mem_nil Bool.false_ne_true, fun id hid => ?_⟩
      rw [List.mem_singleton.mp hid]
      exact .inr ⟨⟨1, some 1⟩, List.mem_cons_self, rfl, rfl⟩
    · rintro (_ | _ | j) hj
      · exact not_false
      · exact absurd rfl hj
      · exact not_false
    · intro request seen next hcall
      obtain ⟨rfl, rfl, rfl⟩ := Call.planned.inj hcall
      refine ⟨fun id => ?_, fun id hid => absurd hid List.not_mem_nil⟩
      show id ∈ [1] ↔ _
      rcases id with _ | _ | id
      · exact iff_of_false (by decide) Bool.false_ne_true
      · exact iff_of_true (List.mem_singleton.mpr rfl) rfl
      · exact iff_of_false (by simp) Bool.false_ne_true
  obtain ⟨s, hrun, hfirst, hsecond, hnone⟩ := hrun
  have hgone : 1 ∉ s.stored := fun hstored => absurd hstored (Option.not_isSome_iff_eq_none.mpr hnone)
  exact ⟨s, hfirst, hsecond, hgone, run_members hrun⟩

/-- Two calls that overlap: the first one's member is lost, and the second one's is of another
organization. -/
theorem lost_and_foreign :
    ∃ es s, Run (groupStep emptyGroup) Any emptyGroup.start es s ∧ ¬ s.InOrder emptyGroup ∧ ¬ s.Tenant emptyGroup := by
  let es : List GroupStep := [.read 0 addOne, .read 1 addNine, .begin 0, .turn 0, .insert 0, .commit 0,
    .begin 1, .delete 1, .turn 1, .insert 1, .commit 1]
  have hrun : ∃ s, Run (groupStep emptyGroup) Any emptyGroup.start es s ∧ s.rows.read 1 = none ∧
    s.rows.read 9 = some 2 ∧
      (s.calls 0).success = some addOne ∧ (s.calls 1).success = some addNine ∧ ∀ i, (s.calls (i + 2)).success = none :=
    ⟨_, .of_exec rfl, rfl, rfl, rfl, rfl, fun i => rfl⟩
  obtain ⟨s, hrun, hone, hnine, hfirst, hsecond, hothers⟩ := hrun
  have hrequests : ∀ i request, (s.calls i).success = some request → request = addOne ∨ request = addNine := by
    intro i request hdone
    rcases i with _ | _ | i
    · exact .inl (Option.some.inj (hdone.symm.trans hfirst))
    · exact .inr (Option.some.inj (hdone.symm.trans hsecond))
    · rw [hothers i] at hdone
      cases hdone
  refine ⟨es, s, hrun, ?_, fun htenant => ?_⟩
  · rintro ⟨order, -, hdone, hchain⟩
    have hstored : 1 ∈ s.stored := by
      refine hchain.of_mem (P := fun members => 1 ∈ members) ((hdone 0 addOne).mpr hfirst) ?_ ?_
      · rintro before after ⟨current, next, -, hplan, hafter⟩
        obtain rfl := Except.ok.inj ((plan_addOne current).symm.trans hplan)
        exact (hafter 1).mpr (mem_pushNew.mpr (.inr rfl))
      · rintro ⟨i, request⟩ hmem before after ⟨current, next, hcurrent, hplan, hafter⟩ hbefore
        have hin : 1 ∈ current := (hcurrent 1).mpr hbefore
        refine (hafter 1).mpr ?_
        rcases hrequests i request ((hdone i request).mp hmem) with rfl | rfl
        · obtain rfl := Except.ok.inj ((plan_addOne current).symm.trans hplan)
          exact mem_pushNew.mpr (.inl hin)
        · obtain rfl := Except.ok.inj ((plan_addNine current).symm.trans hplan)
          exact mem_pushNew.mpr (.inl hin)
    have hsome : (s.rows.read 1).isSome := hstored
    rw [hone] at hsome
    cases hsome
  · have hstored : (s.rows.read 9).isSome := by
      rw [hnine]
      rfl
    rcases htenant 9 hstored with hmem | ⟨i, request, hdone, user, huser, hid, horganization⟩
    · cases hmem
    · have hwhose : request.organizationId = 1 := by rcases hrequests i request hdone with rfl | rfl <;> rfl
      rw [hwhose] at horganization
      rcases List.mem_pair.mp huser with rfl | rfl
      · cases hid
      · cases horganization

end Omnion.Permissions.Scim
