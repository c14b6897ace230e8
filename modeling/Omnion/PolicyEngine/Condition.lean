import Mathlib.Data.List.Forall2
import Mathlib.Data.List.Infix
import Mathlib.Logic.Relation
import Omnion.Core.Json
import Omnion.Core.Text

/-!
# Policy conditions

A policy carries a condition tree, stored as JSON. A node is an object of one of four
forms, told by the key it carries: `all`, `any` and `not` over conditions, and a
comparison of an attribute. `Condition.parse` looks for the four keys in this order and
goes by the first it finds; it does not look at the others.

## What is proved

* `parse_documented_iff` — a value is accepted exactly when the documentation has it
  accepted (`Documented`), unless some node carries the keys of two forms and nothing
  else is wrong with the value.
* `mixed_condition` — a node with `all` and `any` is accepted, and its `any` is lost.
-/

namespace Omnion.PolicyEngine

/-- The comparisons of a condition. -/
inductive Operator where
  | equals
  | notEquals
  | greaterThan
  | lessThan
  | isIn
  | startsWith
  | contains
  deriving DecidableEq

namespace Operator

/-- Every operator, in the order the builder lists them. -/
def all : List Operator := [.equals, .notEquals, .greaterThan, .lessThan, .isIn, .startsWith, .contains]

/-- The operator as it is stored and shown. -/
def asStr : Operator → String
  | .equals => "=="
  | .notEquals => "!="
  | .greaterThan => ">"
  | .lessThan => "<"
  | .isIn => "in"
  | .startsWith => "starts_with"
  | .contains => "contains"

/-- Parse the stored form. -/
def parse (text : String) : Option Operator := all.find? fun op => op.asStr = text

theorem parse_eq_some {text : String} {op : Operator} : parse text = some op ↔ op.asStr = text := by
  constructor
  · intro h
    simpa using List.find?_some h
  · rintro rfl
    cases op <;> decide

/-- Order two JSON numbers; `none` when either side is not one. -/
def compare (left right : Json) : Option ℤ := do
  let left ← left.asF64
  let right ← right.asF64
  return if left > right then 1 else if left < right then -1 else 0

/-- Apply the operator to a resolved attribute and the value the policy expected. -/
def apply (op : Operator) (resolved expected : Json) : Bool :=
  match op with
  | .equals => resolved.beq expected
  | .notEquals => !resolved.beq expected
  | .greaterThan => (compare resolved expected).any (· > 0)
  | .lessThan => (compare resolved expected).any (· < 0)
  | .isIn => expected.asArray.any fun items => items.any fun item => item.beq resolved
  | .startsWith =>
    match resolved.asStr, expected.asStr with
    | some text, some pre => pre.toList.isPrefixOf text.toList
    | _, _ => false
  | .contains =>
    match resolved with
    | .array items => items.any fun item => item.beq expected
    | .string text => expected.asStr.any fun needle => needle ≠ "" ∧ needle.toList <:+: text.toList
    | _ => false

end Operator

/-- The attributes a condition can read: the entries of a JSON object. -/
structure Attributes where
  map : List (String × Json)

/-- The value at a path of keys, or `null`. -/
def getPath (cursor : Json) : List String → Json
  | [] => cursor
  | segment :: segments =>
    match cursor.get segment with
    | some value => getPath value segments
    | none => .null

/-- The attribute at a dotted path, or `null`. -/
def Attributes.get (attributes : Attributes) (path : String) : Json :=
  getPath (.object attributes.map) ((path.toList.splitOn '.').map String.ofList)

/-- One node of a condition tree. -/
inductive Condition where
  | all (children : List Condition)
  | any (children : List Condition)
  | not (child : Condition)
  /-- An attribute compared with a value. -/
  | leaf (attr : String) (operator : Operator) (value : Json)

namespace Condition

mutual

/-- Does the whole tree hold for these attributes? -/
def satisfied (attributes : Attributes) : Condition → Bool
  | .all children => allSatisfied attributes children
  | .any children => anySatisfied attributes children
  | .not child => !satisfied attributes child
  | .leaf attr operator value => operator.apply (attributes.get attr) value

/-- Do all of the children hold? -/
def allSatisfied (attributes : Attributes) : List Condition → Bool
  | [] => true
  | child :: children => satisfied attributes child && allSatisfied attributes children

/-- Does one of the children hold? -/
def anySatisfied (attributes : Attributes) : List Condition → Bool
  | [] => false
  | child :: children => satisfied attributes child || anySatisfied attributes children

end

/-- The sentence for an operator that is not one. -/
def unknownOperator : String :=
  "unknown operator — expected one of " ++ ", ".intercalate (Operator.all.map Operator.asStr)

/-- Read a comparison. -/
def parseLeaf (fields : List (String × Json)) : Except String Condition := do
  let attr ← ((((fields.lookup "attribute").bind Json.asStr).map Text.trim).filter (· ≠ "")).elim
    (.error "a condition needs a non-empty attribute") .ok
  let operator ← (((fields.lookup "operator").bind Json.asStr).bind Operator.parse).elim (.error unknownOperator) .ok
  let value ← (fields.lookup "value").elim (.error "a condition needs a value") .ok
  return .leaf attr operator value

/-- Read a stored condition node. -/
def parse : Json → Except String Condition
  | .object fields =>
    match _h : fields.lookup "all" with
    | some (.array children) => do
      let children ← children.attach.mapM fun ⟨c, _⟩ => parse c
      return .all children
    | some _ => .error "`all` must be an array of conditions"
    | none =>
      match _h : fields.lookup "any" with
      | some (.array children) => do
        let children ← children.attach.mapM fun ⟨c, _⟩ => parse c
        return .any children
      | some _ => .error "`any` must be an array of conditions"
      | none =>
        match _h : fields.lookup "not" with
        | some child => do
          let child ← parse child
          return .not child
        | none =>
          if (fields.lookup "attribute").isSome then parseLeaf fields
          else .error "a condition is `all`, `any`, `not` or an attribute comparison"
  | _ => .error "a condition must be an object"
termination_by value => sizeOf value
decreasing_by
  · exact (Json.sizeOf_of_mem ‹_›).trans (Json.sizeOf_of_lookup ‹_›)
  · exact (Json.sizeOf_of_mem ‹_›).trans (Json.sizeOf_of_lookup ‹fields.lookup "any" = some _›)
  · exact Json.sizeOf_of_lookup ‹fields.lookup "not" = some _›

/-- Write the node back in the stored shape. -/
def toJson : Condition → Json
  | .all children => .object [("all", .array (children.map toJson))]
  | .any children => .object [("any", .array (children.map toJson))]
  | .not child => .object [("not", child.toJson)]
  | .leaf attr operator value =>
    .object [("attribute", .string attr), ("operator", .string operator.asStr), ("value", value)]

theorem parse_object (fields : List (String × Json)) :
    parse (.object fields) =
      match fields.lookup "all" with
      | some (.array children) => .all <$> children.mapM parse
      | some _ => .error "`all` must be an array of conditions"
      | none =>
        match fields.lookup "any" with
        | some (.array children) => .any <$> children.mapM parse
        | some _ => .error "`any` must be an array of conditions"
        | none =>
          match fields.lookup "not" with
          | some child => .not <$> parse child
          | none =>
            if (fields.lookup "attribute").isSome then parseLeaf fields
            else .error "a condition is `all`, `any`, `not` or an attribute comparison" := by
  rw [parse]
  rcases hall : fields.lookup "all" with _ | v
  · rcases hany : fields.lookup "any" with _ | v
    · rcases hnot : fields.lookup "not" with _ | v <;> simp
    · cases v <;> simp
  · cases v <;> simp

/-! ### The documented grammar -/

/-- The keys that tell the four forms of a node apart, in the order they are looked for. -/
def forms : List String := ["all", "any", "not", "attribute"]

/-- The object carries the key. -/
def Carries (fields : List (String × Json)) (key : String) : Prop := (fields.lookup key).isSome = true

/-- The object carries the key of this form and of no other. -/
def Only (fields : List (String × Json)) (form : String) : Prop :=
  ∀ k ∈ forms, Carries fields k ↔ k = form

/-- The form is the first whose key the object carries. -/
def First (fields : List (String × Json)) (form : String) : Prop :=
  forms.find? (fun k => (fields.lookup k).isSome) = some form

/-- The object carries `attribute` together with `operator` and `value`. -/
def IsLeaf (fields : List (String × Json)) : Prop :=
  ∃ attr op value, fields.lookup "attribute" = some (.string attr) ∧ Text.trim attr ≠ "" ∧
    fields.lookup "operator" = some (.string (Operator.asStr op)) ∧ fields.lookup "value" = some value

/-- The conditions, where `form` says how an object shows its form. -/
inductive Written (form : List (String × Json) → String → Prop) : Json → Prop where
  /-- `all` of some conditions. -/
  | all {fields : List (String × Json)} {children : List Json} : form fields "all" →
      fields.lookup "all" = some (.array children) → (∀ c ∈ children, Written form c) → Written form (.object fields)
  /-- `any` of some conditions. -/
  | any {fields : List (String × Json)} {children : List Json} : form fields "any" →
      fields.lookup "any" = some (.array children) → (∀ c ∈ children, Written form c) → Written form (.object fields)
  /-- `not` a condition. -/
  | not {fields : List (String × Json)} {child : Json} : form fields "not" →
      fields.lookup "not" = some child → Written form child → Written form (.object fields)
  | leaf {fields : List (String × Json)} : form fields "attribute" → IsLeaf fields → Written form (.object fields)

/-- **The documented conditions**: a node is an object carrying exactly one of `all`,
`any`, `not`, or `attribute` together with `operator` and `value`. -/
def Documented (v : Json) : Prop := Written Only v

/-- The node carries the key of one form at most. -/
def OneForm (v : Json) : Prop :=
  ∀ fields, v = .object fields → ∀ k ∈ forms, ∀ l ∈ forms, Carries fields k → Carries fields l → k = l

/-- The nodes read for a node. -/
def Child (v c : Json) : Prop :=
  ∃ fields, v = .object fields ∧
    ((∃ children, First fields "all" ∧ fields.lookup "all" = some (.array children) ∧ c ∈ children) ∨
      (∃ children, First fields "any" ∧ fields.lookup "any" = some (.array children) ∧ c ∈ children) ∨
        (First fields "not" ∧ fields.lookup "not" = some c))

/-- The nodes of a tree, its root one of them. -/
def Node : Json → Json → Prop := Relation.ReflTransGen Child

/-- What the documentation says of a value: it is accepted exactly when it is a
condition, an accepted condition is read back from what it is written as, and an object
of two forms is refused. -/
structure ReadAsDocumented (v : Json) : Prop where
  accepted : (∃ c, parse v = .ok c) ↔ Documented v
  roundTrip : ∀ c, parse v = .ok c → parse c.toJson = .ok c
  mixed : ¬ OneForm v → ∃ e, parse v = .error e

variable {v : Json} {c : Condition} {fields : List (String × Json)}

theorem only_iff {form : String} (hform : form ∈ forms) :
    Only fields form ↔ First fields form ∧ OneForm (.object fields) := by
  constructor
  · intro h
    refine ⟨?_, fun f hf k hk l hl hck hcl => ?_⟩
    · rw [First, List.find?_eq_some_iff_append]
      obtain ⟨pre, post, hsplit⟩ := List.append_of_mem hform
      refine ⟨(h form hform).mpr rfl, pre, post, hsplit, fun k hk => ?_⟩
      have hkf : k ∈ forms := hsplit ▸ List.mem_append_left _ hk
      rw [Bool.not_eq_true']
      apply eq_false_of_ne_true
      intro hck
      obtain rfl := (h k hkf).mp hck
      -- The keys are told apart.
      have hnodup : forms.Nodup := by decide
      rw [hsplit, List.nodup_append] at hnodup
      exact hnodup.2.2 k hk k List.mem_cons_self rfl
    · obtain rfl := Json.object.inj hf
      rw [(h k hk).mp hck, (h l hl).mp hcl]
  · rintro ⟨hfirst, hone⟩ k hk
    have hcarries : Carries fields form :=
      List.find?_some (p := fun k => (fields.lookup k).isSome) hfirst
    constructor
    · intro hck
      exact hone fields rfl k hk form hform hck hcarries
    · rintro rfl
      exact hcarries

/-! ### What is accepted -/

section Lists

variable {α β ε : Type} {R : α → β → Prop} {l : List α} {l' : List β}

theorem exists_of_forall₂ (h : List.Forall₂ R l l') : ∀ a ∈ l, ∃ b ∈ l', R a b := by
  induction h with
  | nil => simp
  | cons hab _ ih =>
    rintro x (_ | ⟨_, hx⟩)
    · exact ⟨_, List.mem_cons_self, hab⟩
    · obtain ⟨b, hb, hxb⟩ := ih x hx
      exact ⟨b, List.mem_cons_of_mem _ hb, hxb⟩

theorem exists_forall₂ (h : ∀ a ∈ l, ∃ b, R a b) : ∃ l', List.Forall₂ R l l' := by
  induction l with
  | nil => exact ⟨[], .nil⟩
  | cons a l ih =>
    obtain ⟨b, hb⟩ := h a List.mem_cons_self
    obtain ⟨l', hl'⟩ := ih fun x hx => h x (List.mem_cons_of_mem _ hx)
    exact ⟨b :: l', .cons hb hl'⟩

theorem mapM_eq_ok {f : α → Except ε β} {bs : List β} :
    l.mapM f = .ok bs ↔ List.Forall₂ (fun a b => f a = .ok b) l bs := by
  induction l generalizing bs with
  | nil =>
    cases bs with
    | nil => simp [pure, Except.pure]
    | cons b bs => exact ⟨fun h => by simp [pure, Except.pure] at h, fun h => by cases h⟩
  | cons a l ih =>
    rw [List.mapM_cons]
    constructor
    · intro h
      rcases ha : f a with e | b
      · rw [ha] at h
        exact absurd h (by simp [bind, Except.bind])
      · rcases hl : l.mapM f with e | bs'
        · rw [ha, hl] at h
          exact absurd h (by simp [bind, Except.bind])
        · rw [ha, hl] at h
          obtain rfl : b :: bs' = bs := by simpa [bind, Except.bind, pure, Except.pure] using h
          exact .cons ha (ih.mp hl)
    · rintro (_ | ⟨ha, hl⟩)
      rw [ha, ih.mpr hl]
      rfl

theorem map_eq_ok {f : α → β} {x : Except ε α} {b : β} :
    f <$> x = .ok b ↔ ∃ a, x = .ok a ∧ f a = b := by
  cases x <;> simp [Functor.map, Except.map]

theorem elim_eq_ok {o : Option α} {e : ε} {f : α → Except ε β} {b : β} :
    o.elim (.error e) .ok >>= f = .ok b ↔ ∃ a, o = some a ∧ f a = .ok b := by
  cases o <;> simp [bind, Except.bind]

end Lists

theorem parseLeaf_eq_ok :
    parseLeaf fields = .ok c ↔
      ∃ attr op value, fields.lookup "attribute" = some (.string attr) ∧ Text.trim attr ≠ "" ∧
        fields.lookup "operator" = some (.string (Operator.asStr op)) ∧ fields.lookup "value" = some value ∧
          .leaf (Text.trim attr) op value = c := by
  have hstr : ∀ {v : Json} {s : String}, v.asStr = some s ↔ v = .string s := by
    intro v s
    cases v <;> simp [Json.asStr]
  simp only [parseLeaf, elim_eq_ok, Option.filter_eq_some_iff, Option.map_eq_some_iff, Option.bind_eq_some_iff, hstr,
    Operator.parse_eq_some]
  constructor
  · rintro ⟨_, ⟨⟨attr, ⟨_, hattr, rfl⟩, rfl⟩, hne⟩, op, ⟨_, ⟨_, hop, rfl⟩, rfl⟩, value, hvalue, hc⟩
    exact ⟨attr, op, value, hattr, by simpa using hne, hop, hvalue, Except.ok.inj hc⟩
  · rintro ⟨attr, op, value, hattr, hne, hop, hvalue, rfl⟩
    exact ⟨_, ⟨⟨attr, ⟨_, hattr, rfl⟩, rfl⟩, by simpa using hne⟩, op, ⟨_, ⟨_, hop, rfl⟩, rfl⟩, value, hvalue, rfl⟩

theorem parse_eq_ok :
    parse (.object fields) = .ok c ↔
      (First fields "all" ∧ ∃ children, fields.lookup "all" = some (.array children) ∧
        ∃ cs, List.Forall₂ (fun v c => parse v = .ok c) children cs ∧ .all cs = c) ∨
      (First fields "any" ∧ ∃ children, fields.lookup "any" = some (.array children) ∧
        ∃ cs, List.Forall₂ (fun v c => parse v = .ok c) children cs ∧ .any cs = c) ∨
      (First fields "not" ∧ ∃ child, fields.lookup "not" = some child ∧ ∃ d, parse child = .ok d ∧ .not d = c) ∨
      (First fields "attribute" ∧ parseLeaf fields = .ok c) := by
  rw [parse_object]
  rcases hall : fields.lookup "all" with _ | v
  · rcases hany : fields.lookup "any" with _ | v
    · rcases hnot : fields.lookup "not" with _ | v
      · rcases hattr : fields.lookup "attribute" with _ | v <;> simp [First, forms, *]
      · simp [First, forms, map_eq_ok, *]
    · cases v <;> simp [First, forms, map_eq_ok, mapM_eq_ok, *]
  · cases v <;> simp [First, forms, map_eq_ok, mapM_eq_ok, *]

theorem parse_of_not_object (h : ∀ fields, v ≠ .object fields) : ∃ e, parse v = .error e := by
  cases v with
  | object fields => exact absurd rfl (h fields)
  | _ => exact ⟨_, by rw [parse]; simp⟩

/-- The attributes of a condition are trimmed and not empty. -/
inductive Storable : Condition → Prop where
  | all {cs : List Condition} : (∀ c ∈ cs, Storable c) → Storable (.all cs)
  | any {cs : List Condition} : (∀ c ∈ cs, Storable c) → Storable (.any cs)
  | not {c : Condition} : Storable c → Storable (.not c)
  | leaf {attr : String} {op : Operator} {value : Json} :
      Text.trim attr = attr → attr ≠ "" → Storable (.leaf attr op value)

/-- What is accepted goes by the first form of each node, and its attributes are
trimmed. -/
theorem of_parse (v : Json) (c : Condition) (h : parse v = .ok c) : Written First v ∧ Storable c := by
  have hobject : ∃ fields, v = .object fields := by
    by_contra hno
    obtain ⟨e, he⟩ := parse_of_not_object fun fields h => hno ⟨fields, h⟩
    rw [he] at h
    cases h
  obtain ⟨fields, rfl⟩ := hobject
  rcases parse_eq_ok.mp h with ⟨hf, children, hk, cs, hcs, rfl⟩ | ⟨hf, children, hk, cs, hcs, rfl⟩ |
    ⟨hf, child, hk, d, hd, rfl⟩ | ⟨hf, hleaf⟩
  · refine ⟨.all hf hk fun u hu => ?_, .all fun d hd => ?_⟩
    · obtain ⟨d, -, hd⟩ := exists_of_forall₂ hcs u hu
      exact (of_parse u d hd).1
    · obtain ⟨u, hu, hud⟩ := exists_of_forall₂ hcs.flip d hd
      exact (of_parse u d hud).2
  · refine ⟨.any hf hk fun u hu => ?_, .any fun d hd => ?_⟩
    · obtain ⟨d, -, hd⟩ := exists_of_forall₂ hcs u hu
      exact (of_parse u d hd).1
    · obtain ⟨u, hu, hud⟩ := exists_of_forall₂ hcs.flip d hd
      exact (of_parse u d hud).2
  · exact ⟨.not hf hk (of_parse child d hd).1, .not (of_parse child d hd).2⟩
  · obtain ⟨attr, op, value, hattr, hne, hop, hvalue, rfl⟩ := parseLeaf_eq_ok.mp hleaf
    exact ⟨.leaf hf ⟨attr, op, value, hattr, hne, hop, hvalue⟩, .leaf (Text.trim_trim attr) hne⟩
termination_by sizeOf v
decreasing_by
  all_goals subst_vars
  all_goals first
    | exact Json.sizeOf_of_lookup hk
    | exact (Json.sizeOf_of_mem hu).trans (Json.sizeOf_of_lookup hk)

theorem exists_parse (h : Written First v) : ∃ c, parse v = .ok c := by
  induction h with
  | all hf hk _ ih =>
    obtain ⟨cs, hcs⟩ := exists_forall₂ ih
    exact ⟨.all cs, parse_eq_ok.mpr (.inl ⟨hf, _, hk, cs, hcs, rfl⟩)⟩
  | any hf hk _ ih =>
    obtain ⟨cs, hcs⟩ := exists_forall₂ ih
    exact ⟨.any cs, parse_eq_ok.mpr (.inr (.inl ⟨hf, _, hk, cs, hcs, rfl⟩))⟩
  | not hf hk _ ih =>
    obtain ⟨d, hd⟩ := ih
    exact ⟨.not d, parse_eq_ok.mpr (.inr (.inr (.inl ⟨hf, _, hk, d, hd, rfl⟩)))⟩
  | leaf hf hleaf =>
    obtain ⟨attr, op, value, hattr, hne, hop, hvalue⟩ := hleaf
    exact ⟨.leaf (Text.trim attr) op value,
      parse_eq_ok.mpr (.inr (.inr (.inr ⟨hf, parseLeaf_eq_ok.mpr ⟨attr, op, value, hattr, hne, hop, hvalue, rfl⟩⟩)))⟩

theorem accepted_iff : (∃ c, parse v = .ok c) ↔ Written First v :=
  ⟨fun ⟨c, hc⟩ => (of_parse v c hc).1, exists_parse⟩

/-! ### What is written is read back -/

theorem parse_toJson_of_storable (h : Storable c) : parse c.toJson = .ok c := by
  have hchildren : ∀ {cs : List Condition}, (∀ c ∈ cs, parse c.toJson = .ok c) →
      List.Forall₂ (fun v c => parse v = .ok c) (cs.map toJson) cs := by
    intro cs h
    rw [List.forall₂_map_left_iff, List.forall₂_same]
    exact h
  induction h with
  | all _ ih =>
    rw [toJson]
    exact parse_eq_ok.mpr (.inl ⟨rfl, _, rfl, _, hchildren ih, rfl⟩)
  | any _ ih =>
    rw [toJson]
    exact parse_eq_ok.mpr (.inr (.inl ⟨rfl, _, rfl, _, hchildren ih, rfl⟩))
  | not _ ih =>
    rw [toJson]
    exact parse_eq_ok.mpr (.inr (.inr (.inl ⟨rfl, _, rfl, _, ih, rfl⟩)))
  | leaf htrim hne =>
    rw [toJson]
    exact parse_eq_ok.mpr (.inr (.inr (.inr ⟨rfl, parseLeaf_eq_ok.mpr
      ⟨_, _, _, rfl, by rwa [htrim], rfl, rfl, by rw [htrim]⟩⟩)))

theorem parse_toJson (h : parse v = .ok c) : parse c.toJson = .ok c :=
  parse_toJson_of_storable (of_parse v c h).2

/-! ### What is documented -/

theorem Node.of_child {u w : Json} (h : Child v u) (hw : Node u w) : Node v w :=
  Relation.ReflTransGen.head h hw

theorem First.unique {form form' : String} (h : First fields form) (h' : First fields form') :
    form = form' :=
  Option.some.inj (h.symm.trans h')

theorem Child.cases {u : Json} (h : Child (.object fields) u) :
    (∃ children, First fields "all" ∧ fields.lookup "all" = some (.array children) ∧ u ∈ children) ∨
      (∃ children, First fields "any" ∧ fields.lookup "any" = some (.array children) ∧ u ∈ children) ∨
        (First fields "not" ∧ fields.lookup "not" = some u) := by
  obtain ⟨_, hfields, h⟩ := h
  obtain rfl := Json.object.inj hfields
  exact h

/-- The children of `all` and of `any` are their conditions. -/
theorem Child.mem_children {u : Json} {form : String} {children : List Json} (hform : form ≠ "not")
    (hf : First fields form)
    (hk : fields.lookup form = some (.array children)) (h : Child (.object fields) u) :
    u ∈ children := by
  have hsame : ∀ {form' children'}, First fields form' → fields.lookup form' = some (.array children') →
      u ∈ children' → u ∈ children := by
    intro form' children' hf' hk' hmem
    obtain rfl := hf.unique hf'
    obtain rfl := Json.array.inj (Option.some.inj (hk.symm.trans hk'))
    exact hmem
  rcases h.cases with ⟨children', hf', hk', hmem⟩ | ⟨children', hf', hk', hmem⟩ | ⟨hf', -⟩
  · exact hsame hf' hk' hmem
  · exact hsame hf' hk' hmem
  · exact absurd (hf.unique hf') hform

/-- The child of `not` is its condition. -/
theorem Child.eq_of_not {u child : Json} (hf : First fields "not")
    (hk : fields.lookup "not" = some child) (h : Child (.object fields) u) : u = child := by
  rcases h.cases with ⟨_, hf', -⟩ | ⟨_, hf', -⟩ | ⟨-, hk'⟩
  · exact absurd (hf.unique hf') (by decide)
  · exact absurd (hf.unique hf') (by decide)
  · exact Option.some.inj (hk'.symm.trans hk)

theorem not_child_of_leaf {u : Json} (hf : First fields "attribute") : ¬ Child (.object fields) u := by
  intro h
  rcases h.cases with ⟨_, hf', -⟩ | ⟨_, hf', -⟩ | ⟨hf', -⟩ <;> exact absurd (hf.unique hf') (by decide)

theorem forall_node {P : Json → Prop} (hroot : P v) (hchild : ∀ u, Child v u → ∀ w, Node u w → P w) :
    ∀ w, Node v w → P w := by
  intro w hw
  rcases Relation.ReflTransGen.cases_head hw with rfl | ⟨u, hu, huw⟩
  · exact hroot
  · exact hchild u hu w huw

/-- A value is a documented condition when it is accepted by the first form of each
node and no node has two. -/
theorem documented_iff : Documented v ↔ Written First v ∧ ∀ u, Node v u → OneForm u := by
  constructor
  · intro h
    induction h with
    | all hf hk _ ih =>
      obtain ⟨hfirst, hone⟩ := (only_iff (by decide)).mp hf
      refine ⟨.all hfirst hk fun u hu => (ih u hu).1, forall_node hone fun u hu => ?_⟩
      exact (ih u (hu.mem_children (by decide) hfirst hk)).2
    | any hf hk _ ih =>
      obtain ⟨hfirst, hone⟩ := (only_iff (by decide)).mp hf
      refine ⟨.any hfirst hk fun u hu => (ih u hu).1, forall_node hone fun u hu => ?_⟩
      exact (ih u (hu.mem_children (by decide) hfirst hk)).2
    | not hf hk _ ih =>
      obtain ⟨hfirst, hone⟩ := (only_iff (by decide)).mp hf
      refine ⟨.not hfirst hk ih.1, forall_node hone fun u hu => ?_⟩
      rw [hu.eq_of_not hfirst hk]
      exact ih.2
    | leaf hf hleaf =>
      obtain ⟨hfirst, hone⟩ := (only_iff (by decide)).mp hf
      exact ⟨.leaf hfirst hleaf, forall_node hone fun u hu => absurd hu (not_child_of_leaf hfirst)⟩
  · rintro ⟨h, hone⟩
    induction h with
    | all hf hk _ ih =>
      refine .all ((only_iff (by decide)).mpr ⟨hf, hone _ .refl⟩) hk fun u hu => ?_
      exact ih u hu fun w hw => hone w (.of_child ⟨_, rfl, .inl ⟨_, hf, hk, hu⟩⟩ hw)
    | any hf hk _ ih =>
      refine .any ((only_iff (by decide)).mpr ⟨hf, hone _ .refl⟩) hk fun u hu => ?_
      exact ih u hu fun w hw => hone w (.of_child ⟨_, rfl, .inr (.inl ⟨_, hf, hk, hu⟩)⟩ hw)
    | not hf hk _ ih =>
      refine .not ((only_iff (by decide)).mpr ⟨hf, hone _ .refl⟩) hk ?_
      exact ih fun w hw => hone w (.of_child ⟨_, rfl, .inr (.inr ⟨hf, hk⟩)⟩ hw)
    | leaf hf hleaf => exact .leaf ((only_iff (by decide)).mpr ⟨hf, hone _ .refl⟩) hleaf

/-- **What is accepted is what is documented** unless a value that is accepted by the
first form of each of its nodes has a node of two forms. -/
theorem parse_documented_iff (v : Json) :
    ReadAsDocumented v ↔ (Written First v → ∀ u, Node v u → OneForm u) := by
  constructor
  · intro h hwritten
    exact (documented_iff.mp (h.accepted.mp (accepted_iff.mpr hwritten))).2
  · intro h
    refine ⟨?_, fun c hc => parse_toJson hc, fun hmixed => ?_⟩
    · rw [accepted_iff, documented_iff]
      exact ⟨fun hwritten => ⟨hwritten, h hwritten⟩, fun hdoc => hdoc.1⟩
    · rcases hparse : parse v with e | c
      · exact ⟨e, rfl⟩
      · exact absurd (h (accepted_iff.mp ⟨c, hparse⟩) v .refl) hmixed

/-- A node with `all` and `any` is accepted, and its `any` is lost. -/
theorem mixed_condition :
    ¬ ReadAsDocumented (.object [("all", .array []), ("any", .array [])]) := by
  intro h
  have hparse : parse (.object [("all", .array []), ("any", .array [])]) = .ok (.all []) := by
    rw [parse_object]
    rfl
  have hmixed : ¬ OneForm (.object [("all", .array []), ("any", .array [])]) := by
    intro hone
    exact absurd (hone _ rfl "all" (by decide) "any" (by decide) rfl rfl) (by decide)
  obtain ⟨e, he⟩ := h.mixed hmixed
  rw [hparse] at he
  cases he

end Condition

end Omnion.PolicyEngine
