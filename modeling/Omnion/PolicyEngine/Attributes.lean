import Omnion.Library.Nested
import Omnion.PolicyEngine.Condition

/-!
# Attributes

`crates/policy-engine/src/lib.rs`: the attributes a condition reads are a JSON object. `get`
reads at a dotted path and `set` writes at one. `set` leaves empty segments out and makes an
object of whatever is in its way.

## What is proved

* `get_eq`, `object_set` — both are those of nested maps.
-/

namespace Omnion.PolicyEngine

open Nested

/-- JSON values as nested maps. -/
def jsonNest : Nest String Json where
  entries
    | .object fields => fields
    | _ => []
  node := .object
  entries_node _ := rfl

/-- `set` in a map, along the segments of a path. -/
def setIn (value : Json) (map : List (String × Json)) : List String → List (String × Json)
  | [] => map
  | [last] => put last value map
  | segment :: rest =>
    -- What is missing or no object is replaced by an empty one.
    let entry := ((map.lookup segment).map jsonNest.entries).getD []
    put segment (.object (setIn value entry rest)) map

/-- The segments of a dotted path, without the empty ones. -/
def segments (path : String) : List String := ((path.toList.splitOn '.').filter (· ≠ [])).map String.ofList

/-- Set the attribute at a dotted path, creating intermediate objects. -/
def Attributes.set (attributes : Attributes) (path : String) (value : Json) : Attributes :=
  { map := setIn value attributes.map (segments path) }

/-- The set, as an object. -/
def Attributes.object (attributes : Attributes) : Json := .object attributes.map

/-- The parts of a dotted path. -/
def parts (path : String) : List String := (path.toList.splitOn '.').map String.ofList

variable {attributes : Attributes} {value v : Json} {map : List (String × Json)} {path : List String} {name : String}

theorem getPath_eq (v : Json) (path : List String) : getPath v path = (jsonNest.read v path).getD .null := by
  induction path generalizing v with
  | nil => rfl
  | cons segment path ih =>
    rw [getPath, Nest.read]
    have hget : v.get segment = (jsonNest.entries v).lookup segment := by cases v <;> rfl
    rw [hget]
    rcases (jsonNest.entries v).lookup segment with _ | inner
    · rfl
    · exact ih inner

theorem get_eq (attributes : Attributes) (path : String) :
    attributes.get path = (jsonNest.read attributes.object (parts path)).getD .null :=
  getPath_eq _ _

theorem object_setIn (hpath : path ≠ []) : .object (setIn value map path) = jsonNest.write value
    (.object map) path := by
  induction path generalizing map with
  | nil => exact absurd rfl hpath
  | cons segment rest ih =>
    cases rest with
    | nil => rfl
    | cons next rest =>
      have hentry : jsonNest.entries (.object (((map.lookup segment).map jsonNest.entries).getD [])) =
          jsonNest.entries ((map.lookup segment).getD (.object [])) := by
        rcases map.lookup segment with _ | inner <;> rfl
      change Json.object (put segment (.object (setIn value _ (next :: rest))) map) = _
      rw [ih (List.cons_ne_nil next rest), Nest.write_congr hentry]
      rfl

theorem object_set (hname : segments name ≠ []) :
    (attributes.set name value).object = jsonNest.write value attributes.object (segments name) :=
  object_setIn hname

theorem set_of_empty (hname : segments name = []) : attributes.set name value = attributes := by
  rw [Attributes.set, hname]
  rfl

end Omnion.PolicyEngine
