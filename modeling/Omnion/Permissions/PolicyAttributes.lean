import Omnion.Library.Words
import Omnion.Media.Versions
import Omnion.Permissions.Bindings
import Omnion.PolicyEngine.Attributes

/-!
# The attributes of a request

`crates/permissions/src/policies.rs`: what the conditions of policies read is what is stored
with the user, name by name at the top level and again under `user`, and over it what the
request says: `action`, `subject`, and the fields of the context it has.

## What is proved

* `attributesFrom_right_iff` — what is read of a request is what it says (`Right`) just when
  nothing stored is left there where the context has no field (`Clean`).
* `stored_department` — a stored `resource` is read where the request has no department.
-/

namespace Omnion.Permissions

open Media (hyphenated)
open Nested PolicyEngine

/-- A `ResourceContext` with all its fields. -/
structure RequestContext extends ResourceContext where
  department : Option String
  module : Option String
  path : Option String

/-- The stored type. -/
def Subject.subjectType : Subject → String
  | .user _ => "user"
  | .group _ => "group"
  | .serviceAccount _ => "service_account"

def Subject.id : Subject → Uuid
  | .user id => id
  | .group id => id
  | .serviceAccount id => id

/-- An identifier as JSON. -/
def uuidJson (id : Uuid) : Json := .string (hyphenated id)

/-- The subject as JSON. -/
def Subject.json (subject : Subject) : Json :=
  .object [("id", uuidJson subject.id), ("type", .string subject.subjectType)]

/-- The stored names, each set at the top level. -/
def topLevel (stored : Json) : Attributes :=
  (jsonNest.entries stored).foldl (fun attributes entry => attributes.set entry.1 entry.2) ⟨[]⟩

/-- A field of the context is set if there is one. -/
def setField (name : String) (value : Option Json) (attributes : Attributes) : Attributes :=
  match value with
  | some value => attributes.set name value
  | none => attributes

/-- The merge rules in one readable place. -/
def attributesFrom (stored : Json) (subject : Subject) (context : RequestContext) (key : String) : Attributes :=
  let attributes := topLevel stored
  -- The same object one level down.
  let attributes := attributes.set "user" stored
  let attributes := attributes.set "action" (.string key)
  let attributes := attributes.set "subject" subject.json
  let attributes := setField "organization.id" (context.organizationId.map uuidJson) attributes
  let attributes := setField "resource.site_id" (context.siteId.map uuidJson) attributes
  let attributes := setField "resource.path" (context.path.map .string) attributes
  let attributes := setField "resource.department" (context.department.map .string) attributes
  setField "resource.module" (context.module.map .string) attributes

/-! ### What a request says -/

/-- The fields that are there. -/
def present (fields : List (String × Option Json)) : List (String × Json) :=
  fields.filterMap fun (name, value) => value.map (name, ·)

def RequestContext.says (context : RequestContext) : List (String × Json) :=
  [("organization", .object (present [("id", context.organizationId.map uuidJson)])),
    ("resource", .object (present
      [("department", context.department.map .string), ("module", context.module.map .string),
        ("path", context.path.map .string), ("site_id", context.siteId.map uuidJson)]))]

/-- What the request says. -/
def request (subject : Subject) (context : RequestContext) (key : String) : Json :=
  .object (("action", .string key) :: ("subject", subject.json) :: context.says)

/-- The paths of `action`, `subject.*`, `organization.*` and `resource.*`. -/
def Scoped (path : List String) : Prop :=
  path = ["action"] ∨ ∃ root ∈ ["subject", "organization", "resource"], ∃ k rest, path = root :: k :: rest

/-- **What is read of a request** is what it says, whichever of two objects is stored. -/
def Right (stored stored' : Json) (subject : Subject) (context : RequestContext) (key : String) : Prop :=
  ∀ path, Scoped (parts path) →
    (attributesFrom stored subject context key).get path = (attributesFrom stored' subject context key).get path ∧
      (attributesFrom stored subject context key).get path = getPath (request subject context key) (parts path)

/-- The stored names with their values, by their segments. A name without any is passed over. -/
def named (stored : Json) : List (List String × Json) :=
  ((jsonNest.entries stored).map fun entry => (segments entry.1, entry.2)).filter fun entry => entry.1 ≠ []

/-- A value set at a path or above it has `null` there. -/
def LeavesNull (entry : List String × Json) (path : List String) : Prop :=
  ∃ rest, path = entry.1 ++ rest ∧ getPath entry.2 rest = .null

/-- **Nothing stored is left** where the context has no field: the last name that reaches
such a path leaves `null` there. -/
def Clean (context : RequestContext) (stored : Json) : Prop :=
  ∀ root ∈ ["organization", "resource"], ∀ k : String, '.' ∉ k.toList →
    jsonNest.read (.object context.says) [root, k] = none →
      ∀ entry ∈ Nested.last (named stored) [root, k], LeavesNull entry [root, k]

variable {stored stored' : Json} {subject : Subject} {context : RequestContext} {key name root k : String}
  {attributes : Attributes} {value : Option Json} {v : Json} {path rest : List String} {fields : List (String × Json)}

/-! ### What is stored -/

theorem object_topLevel (stored : Json) : (topLevel stored).object = jsonNest.writes (.object []) (named stored) := by
  rw [topLevel, named]
  generalize jsonNest.entries stored = fields
  induction fields using List.reverseRecOn with
  | nil => rfl
  | append_singleton fields entry ih =>
    rw [List.foldl_append, List.map_append, List.filter_append, List.foldl_cons, List.foldl_nil, List.map_singleton]
    by_cases hempty : segments entry.1 = []
    · rw [List.filter_cons_of_neg (by simpa using hempty), set_of_empty hempty, ih, List.filter_nil, List.append_nil]
    · rw [List.filter_cons_of_pos (by simpa using hempty), List.filter_nil, Nest.writes_concat, object_set hempty, ih]

/-- What is stored reads as `null` just when the last name that reaches the path left it so. -/
theorem read_topLevel_null_iff (stored : Json) (root k : String) :
    (jsonNest.read (topLevel stored).object [root, k]).getD .null = .null ↔
      ∀ entry ∈ Nested.last (named stored) [root, k], LeavesNull entry [root, k] := by
  rw [object_topLevel]
  rcases hlast : Nested.last (named stored) [root, k] with _ | entry
  · rw [Nest.read_writes_of_none hlast]
    simp [jsonNest, Nest.read]
  · simp only [Option.mem_def, Option.some.injEq, forall_eq']
    have hleft := Nest.left_writes (n := jsonNest) hlast (.object [])
    rcases hleft with ⟨rest, hrest, hfound⟩ | ⟨⟨habove, hne⟩, entries, hfound⟩
    · rw [hfound, ← getPath_eq]
      refine ⟨fun h => ⟨rest, hrest, h⟩, ?_⟩
      rintro ⟨rest', hrest', h⟩
      rwa [List.append_cancel_left (hrest.symm.trans hrest')]
    · rw [hfound]
      refine iff_of_false ?_ ?_
      · intro h
        cases h
      · rintro ⟨rest, hrest, -⟩
        exact hne (habove.eq_of_length_le (by rw [hrest]; simp))

/-! ### What is set over it -/

theorem read_set_of_not_reaches (h : ¬ Reaches (segments name) path) :
    jsonNest.read (attributes.set name v).object path = jsonNest.read attributes.object path := by
  have hname : segments name ≠ [] := by
    intro hempty
    rw [hempty] at h
    exact h (reaches_nil path)
  rw [object_set hname, Nest.read_write_of_not_reaches h]

theorem read_set_append (rest : List String) (hname : segments name = path) (hpath : path ≠ []) :
    jsonNest.read (attributes.set name v).object (path ++ rest) = jsonNest.read v rest := by
  subst hname
  rw [object_set hpath, Nest.read_write_append]

theorem read_setField {r f : String} (hname : segments name = [r, f]) :
    jsonNest.read (setField name value attributes).object [root, k] =
      if r = root ∧ f = k then value.or (jsonNest.read attributes.object [root, k])
      else jsonNest.read attributes.object [root, k] := by
  rcases value with _ | v
  · simp [setField]
  · rw [setField]
    split_ifs with h
    · obtain ⟨rfl, rfl⟩ := h
      exact read_set_append [] hname (List.cons_ne_nil _ _)
    · refine read_set_of_not_reaches ?_
      rwa [hname, reaches_cons, reaches_cons, and_iff_left (reaches_nil [])]

theorem read_setField_of_ne {r f : String} (hname : segments name = [r, f]) (h : r ≠ root) :
    jsonNest.read (setField name value attributes).object (root :: path) =
      jsonNest.read attributes.object (root :: path) := by
  rcases value with _ | v
  · rfl
  · refine read_set_of_not_reaches ?_
    rw [hname, reaches_cons]
    exact fun hr => h hr.1

theorem lookup_present {fields : List (String × Option Json)} : (present ((name, value) :: fields)).lookup k =
    if k = name then value.or ((present fields).lookup k) else (present fields).lookup k := by
  rcases value with _ | v
  · rw [Option.none_or, ite_self]
    rfl
  · change List.lookup k ((name, v) :: present fields) = _
    rw [List.lookup_cons]
    split_ifs with hk
    · rw [hk, beq_self_eq_true, Option.some_or]
    · rw [beq_false_of_ne hk]

theorem read_says_organization : jsonNest.read (.object context.says) ["organization", k] =
    if k = "id" then context.organizationId.map uuidJson else none := by
  have hread : jsonNest.read (.object context.says) ["organization", k] =
      ((present [("id", context.organizationId.map uuidJson)]).lookup k).bind some := rfl
  rw [hread, Option.bind_fun_some, lookup_present]
  simp [present]

theorem read_says_resource : jsonNest.read (.object context.says) ["resource", k] =
    if k = "department" then context.department.map .string
    else if k = "module" then context.module.map .string
    else if k = "path" then context.path.map .string
    else if k = "site_id" then context.siteId.map uuidJson
    else none := by
  have hread : jsonNest.read (.object context.says) ["resource", k] = ((present
      [("department", context.department.map .string), ("module", context.module.map .string),
        ("path", context.path.map .string), ("site_id", context.siteId.map uuidJson)]).lookup k).bind some := rfl
  rw [hread, Option.bind_fun_some, lookup_present, lookup_present, lookup_present, lookup_present]
  have hnone : (present []).lookup k = none := rfl
  rw [hnone]
  by_cases hdepartment : k = "department"
  · simp [hdepartment]
  by_cases hmodule : k = "module"
  · simp [hmodule]
  by_cases hpath : k = "path"
  · simp [hpath]
  by_cases hsite : k = "site_id"
  · simp [hsite]
  · simp [hdepartment, hmodule, hpath, hsite]

theorem segments_fields : segments "organization.id" = ["organization", "id"] ∧
    segments "resource.site_id" = ["resource", "site_id"] ∧ segments "resource.path" = ["resource", "path"] ∧
      segments "resource.department" = ["resource", "department"] ∧
        segments "resource.module" = ["resource", "module"] := by
  decide

theorem segments_roots :
    segments "user" = ["user"] ∧ segments "action" = ["action"] ∧ segments "subject" = ["subject"] := by decide

/-- What is set over the stored names. -/
theorem read_attributesFrom (stored : Json) (subject : Subject) (context : RequestContext) (key k : String)
    (hroot : root ∈ ["organization", "resource"]) :
    jsonNest.read (attributesFrom stored subject context key).object [root, k] =
      (jsonNest.read (.object context.says) [root, k]).or (jsonNest.read (topLevel stored).object [root, k]) := by
  obtain ⟨horganization, hsite, hpath, hdepartment, hmodule⟩ := segments_fields
  obtain ⟨huser, haction, hsubject⟩ := segments_roots
  have hbase : jsonNest.read ((((topLevel stored).set "user" stored).set "action" (.string key)).set "subject"
      subject.json).object [root, k] = jsonNest.read (topLevel stored).object [root, k] := by
    have hne : root ≠ "user" ∧ root ≠ "action" ∧ root ≠ "subject" := by
      rcases List.mem_pair.mp hroot with rfl | rfl <;> decide
    rw [read_set_of_not_reaches, read_set_of_not_reaches, read_set_of_not_reaches]
    · rw [huser, reaches_cons]
      exact fun h => hne.1 h.1.symm
    · rw [haction, reaches_cons]
      exact fun h => hne.2.1 h.1.symm
    · rw [hsubject, reaches_cons]
      exact fun h => hne.2.2 h.1.symm
  rw [attributesFrom, read_setField hmodule, read_setField hdepartment, read_setField hpath, read_setField hsite,
    read_setField horganization, hbase]
  rcases List.mem_pair.mp hroot with rfl | rfl
  · rw [read_says_organization]
    by_cases hid : k = "id"
    · subst hid
      simp
    · simp [hid, Ne.symm hid]
  · rw [read_says_resource]
    by_cases hmodule : k = "module"
    · subst hmodule
      simp
    by_cases hdepartment : k = "department"
    · subst hdepartment
      simp
    by_cases hpath : k = "path"
    · subst hpath
      simp
    by_cases hsite : k = "site_id"
    · subst hsite
      simp
    · simp [hmodule, hdepartment, hpath, hsite, Ne.symm hmodule, Ne.symm hdepartment, Ne.symm hpath, Ne.symm hsite]

/-- `action` and `subject` are those of the request. -/
theorem read_request_of_set (stored : Json) (subject : Subject) (context : RequestContext) (key : String)
    (hroot : root = "action" ∨ root = "subject") :
    jsonNest.read (attributesFrom stored subject context key).object (root :: path) =
      jsonNest.read (request subject context key) (root :: path) := by
  obtain ⟨horganization, hsite, hpath, hdepartment, hmodule⟩ := segments_fields
  obtain ⟨-, haction, hsubject⟩ := segments_roots
  have hne : "organization" ≠ root ∧ "resource" ≠ root := by rcases hroot with rfl | rfl <;> decide
  rw [attributesFrom, read_setField_of_ne hmodule hne.2, read_setField_of_ne hdepartment hne.2,
    read_setField_of_ne hpath hne.2, read_setField_of_ne hsite hne.2, read_setField_of_ne horganization hne.1]
  rcases hroot with rfl | rfl
  · have hother : ¬ Reaches (segments "subject") ("action" :: path) := by
      rw [hsubject, reaches_cons]
      exact fun h => absurd h.1 (by decide)
    rw [read_set_of_not_reaches hother]
    exact read_set_append path haction (List.cons_ne_nil _ _)
  · exact read_set_append path hsubject (List.cons_ne_nil _ _)

theorem read_request_of_context (hroot : root ∈ ["organization", "resource"]) :
    jsonNest.read (request subject context key) (root :: path) =
      jsonNest.read (.object context.says) (root :: path) := by
  rcases List.mem_pair.mp hroot with rfl | rfl <;> rfl

/-! ### What is read -/

/-- Below `null` there is nothing. -/
theorem null_below {found : Option Json} (h : found.getD .null = .null) (rest : List String) :
    (found.bind fun inner => jsonNest.read inner rest).getD .null = .null := by
  rcases found with _ | inner
  · rfl
  · obtain rfl : inner = .null := h
    cases rest <;> rfl

theorem not_mem_of_mem_parts {path : String} (h : k ∈ parts path) : '.' ∉ k.toList := by
  obtain ⟨part, hpart, rfl⟩ := List.mem_map.mp h
  intro hdot
  rw [String.toList_ofList] at hdot
  have := (Words.mem_splitOnP hpart hdot).2
  simp at this

theorem parts_pair (hroot : '.' ∉ root.toList) (hk : '.' ∉ k.toList) :
    parts (String.ofList (root.toList ++ '.' :: k.toList)) = [root, k] := by
  have hsplit : (root.toList ++ '.' :: k.toList).splitOn '.' = [root.toList, k.toList] := by
    rw [List.splitOn_append_cons_self_of_not_mem hroot, List.splitOn_eq_singleton hk]
  rw [parts, String.toList_ofList, hsplit]
  simp

/-- What is read under a root of the context is what the request says, if what is stored there
reads as `null` where the context has no field. -/
theorem getPath_of_null (hroot : root ∈ ["organization", "resource"])
    (hnull : jsonNest.read (.object context.says) [root, k] = none →
      (jsonNest.read (topLevel stored).object [root, k]).getD .null = .null) :
    getPath (attributesFrom stored subject context key).object (root :: k :: rest) =
      getPath (request subject context key) (root :: k :: rest) := by
  have hsays : jsonNest.read (request subject context key) (root :: k :: rest) =
      (jsonNest.read (.object context.says) [root, k]).bind fun inner => jsonNest.read inner rest := by
    rw [read_request_of_context hroot]
    exact Nest.read_append jsonNest _ [root, k] rest
  have hread : jsonNest.read (attributesFrom stored subject context key).object (root :: k :: rest) =
      ((jsonNest.read (.object context.says) [root, k]).or (jsonNest.read (topLevel stored).object [root, k])).bind
        fun inner => jsonNest.read inner rest := by
    rw [← read_attributesFrom stored subject context key k hroot]
    exact Nest.read_append jsonNest _ [root, k] rest
  rw [getPath_eq, getPath_eq, hread, hsays]
  rcases hfound : jsonNest.read (.object context.says) [root, k] with _ | found
  · rw [Option.none_or, null_below (hnull hfound)]
    rfl
  · rfl

theorem reads_request_iff (stored : Json) (subject : Subject) (context : RequestContext) (key : String) :
    (∀ path, Scoped (parts path) →
      (attributesFrom stored subject context key).get path = getPath (request subject context key) (parts path)) ↔
        Clean context stored := by
  constructor
  · intro hreads root hroot k hk hnone
    refine (read_topLevel_null_iff stored root k).mp ?_
    have hdot : '.' ∉ root.toList := by rcases List.mem_pair.mp hroot with rfl | rfl <;> decide
    have hparts := parts_pair hdot hk
    have hget := hreads (String.ofList (root.toList ++ '.' :: k.toList))
      (.inr ⟨root, List.mem_cons_of_mem _ hroot, k, [], hparts⟩)
    rwa [get_eq, getPath_eq, hparts, read_request_of_context hroot, read_attributesFrom _ _ _ _ _ hroot, hnone,
      Option.none_or] at hget
  · rintro hclean path (haction | ⟨root, hroot, k, rest, hparts⟩)
    · rw [get_eq, getPath_eq, haction, read_request_of_set _ _ _ _ (.inl rfl)]
    · have hk : '.' ∉ k.toList := not_mem_of_mem_parts (hparts ▸ List.mem_cons_of_mem root List.mem_cons_self)
      rw [get_eq, ← getPath_eq, hparts]
      rcases List.mem_cons.mp hroot with rfl | hroot
      · rw [getPath_eq, getPath_eq, read_request_of_set _ _ _ _ (.inr rfl)]
      · exact getPath_of_null hroot fun hnone =>
          (read_topLevel_null_iff stored root k).mpr (hclean root hroot k hk hnone)

/-- **The attributes of a request** read as it says, whichever of two objects is stored, just
when of neither anything is left where the context has no field. -/
theorem attributesFrom_right_iff (stored stored' : Json) (subject : Subject) (context : RequestContext) (key : String) :
    Right stored stored' subject context key ↔ Clean context stored ∧ Clean context stored' := by
  rw [← reads_request_iff stored subject context key, ← reads_request_iff stored' subject context key, Right]
  constructor
  · intro h
    exact ⟨fun path hpath => (h path hpath).2, fun path hpath => (h path hpath).1 ▸ (h path hpath).2⟩
  · rintro ⟨hstored, hstored'⟩ path hpath
    exact ⟨(hstored path hpath).trans (hstored' path hpath).symm, hstored path hpath⟩

/-- A department stored under `resource` is read where the request has none. -/
theorem stored_department :
    ¬ Right (.object [("resource", .object [("department", .string "legal")])]) (.object []) (.user 0)
      { organizationId := none, siteId := none, department := none, module := none, path := none }
      "content.pages.publish" := by
  intro h
  have hget := (h "resource.department" (.inr ⟨"resource", by decide, "department", [], by decide⟩)).2
  exact absurd (congrArg Json.asStr hget) (by decide)

end Omnion.Permissions
