import Mathlib.Data.List.Sort
import Mathlib.Data.String.Basic
import Omnion.Core.Json
import Omnion.Core.Text
import Omnion.Library.Fallible

/-!
# Bindings

An action's parameters carry placeholders `{{event.field}}`, which are filled from the
payload of the event that fires the rule. `validate_bindings` checks the placeholders when
a rule is written, `resolve_params` fills them when it fires. Both find the placeholders of
a text with `expressions`. The validator asks that an expression begins with `event` and
that something is left of it without `event.`; the resolver asks that it begins with
`event.` and that a field follows.

`toText` is the text of a JSON value (`serde_json`'s `to_string`).

## What is proved

* `bindings_sound_iff` — parameters that pass validation resolve for every payload that
  carries their fields, and expressions the resolver cannot read do not pass (`Sound`),
  exactly when all expressions begin with `event.`, or something else is wrong that the
  validator refuses.
* `eventual` — the placeholder `{{eventual}}` passes validation and never resolves.
-/

namespace Omnion.Automation

open Text

/-- `AutomationError::Invalid`: a rule breaks one of the layer's rules. -/
structure Invalid where
  code : String
  message : String

/-- A binding is refused. -/
def invalidBinding (message : String) : Invalid := ⟨"invalid_binding", message⟩

/-- Opening of a placeholder. -/
def OPEN : List Char := ['\x7b', '\x7b']

/-- Closing of a placeholder. -/
def CLOSE : List Char := ['\x7d', '\x7d']

/-- Longest expression a placeholder may carry, in bytes. -/
def MAX_EXPRESSION : ℕ := 160

/-- How many available keys a resolution failure names. -/
def KEYS_IN_MESSAGE : ℕ := 12

/-- A text between braces, as messages show an expression. -/
def braced (text : String) : String := "\x7b" ++ text ++ "\x7d"

theorem length_lt_of_splitOnce {pat text before after : List Char} (hpat : pat ≠ [])
    (h : splitOnce pat text = some (before, after)) : after.length < text.length := by
  have := List.length_pos_of_ne_nil hpat
  rw [splitOnce_eq_append h, List.length_append, List.length_append]
  omega

/-- The loop of `expressions`, over what is left of the text. -/
def expressionsLoop (text : String) (rest : List Char) : Except Invalid (List String) :=
  match _h : splitOnce OPEN rest with
  | none => .ok []
  | some (_, after) =>
    match _h : splitOnce CLOSE after with
    | none => .error (invalidBinding ("a placeholder in " ++ debug text ++ " is never closed"))
    | some (inner, rest) =>
      let expression := trim (String.ofList inner)
      if expression = "" then .error (invalidBinding (debug text ++ " carries an empty placeholder"))
      else if expression.utf8ByteSize > MAX_EXPRESSION then
        .error (invalidBinding ("a placeholder is at most " ++ toString MAX_EXPRESSION ++ " characters"))
      else if '\x7b' ∈ expression.toList ∨ '\x7d' ∈ expression.toList then
        .error (invalidBinding (braced expression ++ " is not a usable placeholder"))
      else (expression :: ·) <$> expressionsLoop text rest
termination_by rest.length
decreasing_by
  have hopen := length_lt_of_splitOnce (by decide) ‹splitOnce OPEN _ = some _›
  have hclose := length_lt_of_splitOnce (by decide) ‹splitOnce CLOSE _ = some _›
  omega

/-- Every `{{…}}` expression of a string, in order, shape-checked. -/
def expressions (text : String) : Except Invalid (List String) := expressionsLoop text text.toList

/-! ### Validation -/

/-- `str::trim_start_matches`, for a pattern that is not empty: the fuel is the length of
the text. -/
def trimStartMatches (pat : List Char) : ℕ → List Char → List Char
  | 0, text => text
  | n + 1, text => if pat.isPrefixOf text then trimStartMatches pat n (text.drop pat.length) else text

/-- What `validate_bindings` asks of an expression. -/
def checkExpression (path expression : String) : Except Invalid Unit :=
  if !"event".toList.isPrefixOf expression.toList then
    .error (invalidBinding (braced expression ++ " in " ++ path ++
      " uses an unknown namespace; the only one available is `event`"))
  else if expression = "event" then
    .error (invalidBinding (braced expression ++ " in " ++ path ++ " names no field, e.g. " ++
      braced (braced "event.slug")))
  else
    let field := trimStartMatches "event.".toList expression.length expression.toList
    if trim (String.ofList field) = "" then
      .error (invalidBinding (braced expression ++ " in " ++ path ++ " names no field"))
    else .ok ()

/-- What `validate_bindings` asks of a string. -/
def checkText (path text : String) : Except Invalid Unit := do
  forM (← expressions text) (checkExpression path)

mutual

/-- Walk every string of a value and hand it to `check`, with its path. -/
def walk (check : String → String → Except Invalid Unit) (path : String) : Json → Except Invalid Unit
  | .string text => check path text
  | .array items => walkItems check path 0 items
  | .object fields => walkFields check path fields
  | _ => .ok ()

/-- Walk the items of an array. -/
def walkItems (check : String → String → Except Invalid Unit) (path : String) (index : ℕ) :
    List Json → Except Invalid Unit
  | [] => .ok ()
  | item :: items => do
    walk check (path ++ "[" ++ toString index ++ "]") item
    walkItems check path (index + 1) items

/-- Walk the entries of an object. -/
def walkFields (check : String → String → Except Invalid Unit) (path : String) :
    List (String × Json) → Except Invalid Unit
  | [] => .ok ()
  | (key, item) :: fields => do
    walk check (path ++ "." ++ key) item
    walkFields check path fields

end

/-- Check the placeholders of a value without an event. -/
def validateBindings (value : Json) : Except Invalid Unit := walk checkText "$" value

/-! ### Resolution -/

/-- The keys a payload carries, for a failure message. -/
def availableKeys : Json → String
  | .object fields =>
    if fields.isEmpty then "no fields"
    else
      let keys := (fields.map (·.1)).insertionSort (· ≤ ·)
      let shown := min keys.length KEYS_IN_MESSAGE
      let listed := ", ".intercalate (keys.take shown)
      if keys.length > shown then listed ++ " (" ++ toString (keys.length - shown) ++ " more)" else listed
  | _ => "no fields (the payload is not an object)"

/-- The value at a dotted field of the payload. -/
def fieldOf (payload : Json) (field : String) : Option Json :=
  ((field.toList.splitOn '.').map String.ofList).foldlM (fun current segment => current.get segment) payload

/-- Read `event.field.field` out of the payload. -/
def lookup (payload : Json) (expression path : String) : Except Invalid Json :=
  if "event.".toList.isPrefixOf expression.toList then
    let field := trim (String.ofList (expression.toList.drop "event.".length))
    if field = "" then .error (invalidBinding (braced expression ++ " in " ++ path ++ " names no field"))
    else
      match fieldOf payload field with
      | some value => .ok value
      | none =>
        .error (invalidBinding ("the event carries no `" ++ field ++ "` (asked for by " ++ braced ("event." ++ field) ++
          " in " ++ path ++ "); it carries: " ++ availableKeys payload))
  else
    .error (invalidBinding (braced expression ++ " in " ++ path ++
      " is not a binding; the only namespace available is `event`"))

/-- Render a resolved value inside mixed text. -/
def display (toText : Json → String) : Json → String
  | .string text => text
  | .null => ""
  | other => toText other

/-- The loop of `resolve_text` over mixed text: what is left of it, rendered. -/
def renderLoop (toText : Json → String) (payload : Json) (path : String) (rest : List Char) :
    Except Invalid (List Char) :=
  match _h : splitOnce OPEN rest with
  | none => .ok rest
  | some (before, after) =>
    -- The closing mark is looked for from the opening mark on.
    match _h : splitOnce CLOSE (OPEN ++ after) with
    | none => .error (invalidBinding ("a placeholder in " ++ path ++ " is never closed"))
    | some (inner, rest) => do
      let value ← lookup payload (trim (String.ofList (inner.drop OPEN.length))) path
      let rendered ← renderLoop toText payload path rest
      return before ++ (display toText value).toList ++ rendered
termination_by rest.length
decreasing_by
  have hopen := congrArg List.length (splitOnce_eq_append ‹splitOnce OPEN _ = some _›)
  have hclose := length_lt_of_splitOnce (by decide) ‹splitOnce CLOSE _ = some _›
  simp only [List.length_append] at hopen hclose
  omega

/-- Rewrite one string: a lone placeholder becomes a value, anything else becomes text. -/
def resolveText (toText : Json → String) (payload : Json) (path text : String) :
    Except Invalid Json := do
  match ← expressions text with
  | [] => return .string text
  | [expression] =>
    if OPEN.isPrefixOf text.toList ∧ CLOSE.isSuffixOf text.toList then
      -- The whole string is one placeholder, and the value keeps its type.
      lookup payload expression path
    else return .string (String.ofList (← renderLoop toText payload path text.toList))
  | _ => return .string (String.ofList (← renderLoop toText payload path text.toList))

mutual

/-- Walk every string of a value and rewrite the ones carrying placeholders. -/
def resolve (toText : Json → String) (payload : Json) (path : String) : Json → Except Invalid Json
  | .string text => resolveText toText payload path text
  | .array items => .array <$> resolveItems toText payload path 0 items
  | .object fields => .object <$> resolveFields toText payload path fields
  | other => .ok other

/-- Rewrite the items of an array. -/
def resolveItems (toText : Json → String) (payload : Json) (path : String) (index : ℕ) :
    List Json → Except Invalid (List Json)
  | [] => .ok []
  | item :: items => do
    let item ← resolve toText payload (path ++ "[" ++ toString index ++ "]") item
    let items ← resolveItems toText payload path (index + 1) items
    return item :: items

/-- Rewrite the entries of an object. -/
def resolveFields (toText : Json → String) (payload : Json) (path : String) :
    List (String × Json) → Except Invalid (List (String × Json))
  | [] => .ok []
  | (key, item) :: fields => do
    let item ← resolve toText payload (path ++ "." ++ key) item
    let fields ← resolveFields toText payload path fields
    return (key, item) :: fields

end

/-- Resolve every placeholder in an action's parameters against one event payload. -/
def resolveParams (toText : Json → String) (params payload : Json) : Except Invalid Json :=
  resolve toText payload "$" params

/-! ### What a binding is for -/

mutual

/-- The strings of a value. -/
def texts : Json → List String
  | .string text => [text]
  | .array items => textsOfItems items
  | .object fields => textsOfFields fields
  | _ => []

/-- The strings of the items of an array. -/
def textsOfItems : List Json → List String
  | [] => []
  | item :: items => texts item ++ textsOfItems items

/-- The strings of the entries of an object. -/
def textsOfFields : List (String × Json) → List String
  | [] => []
  | (_, item) :: fields => texts item ++ textsOfFields fields

end

/-- The expressions of the placeholders of a value. -/
def placeholders (v : Json) : List String :=
  (texts v).flatMap fun text => (expressions text).toOption.getD []

/-- The expression is read as a field of the event. -/
def Names (expression field : String) : Prop :=
  "event.".toList <+: expression.toList ∧
    trim (String.ofList (expression.toList.drop "event.".length)) = field ∧ field ≠ ""

/-- **What validation is for**: what passes resolves for every payload that carries the
fields named, and what the resolver cannot read does not pass. -/
structure Sound (toText : Json → String) (v : Json) : Prop where
  resolves : validateBindings v = .ok () → ∀ payload,
    (∀ e ∈ placeholders v, ∀ field, Names e field → (fieldOf payload field).isSome) →
      ∃ r, resolveParams toText v payload = .ok r
  refused : ∀ e ∈ placeholders v, (¬ ∃ field, Names e field) → ∃ err, validateBindings v = .error err

/-- The validator refuses the expression: it is of another namespace, or names no field. -/
def Refused (expression : String) : Prop :=
  ¬ "event".toList <+: expression.toList ∨ expression = "event" ∨
    trim (String.ofList (trimStartMatches "event.".toList expression.length expression.toList)) = ""

/-! ### Validation -/

theorem checkExpression_eq_ok {path e : String} : checkExpression path e = .ok () ↔ ¬ Refused e := by
  simp only [checkExpression, Refused, Bool.not_eq_true', ← List.isPrefixOf_iff_prefix, Bool.not_eq_true, not_or]
  split_ifs <;> simp_all

theorem forM_eq_ok {α ε : Type} {f : α → Except ε Unit} {l : List α} :
    forM l f = .ok () ↔ ∀ a ∈ l, f a = .ok () := by
  induction l with
  | nil => simp [pure, Except.pure]
  | cons a l ih =>
    rw [List.forM_cons, List.forall_mem_cons, ← ih]
    rcases f a with e | u
    · simp [bind, Except.bind]
    · simp [bind, Except.bind]

theorem checkText_eq_ok {path text : String} :
    checkText path text = .ok () ↔ ∃ es, expressions text = .ok es ∧ ∀ e ∈ es, ¬ Refused e := by
  rw [checkText]
  rcases expressions text with err | es
  · simp [bind, Except.bind]
  · simp [bind, Except.bind, forM_eq_ok, checkExpression_eq_ok]

mutual

theorem walk_eq_ok {check : String → String → Except Invalid Unit} {P : String → Prop}
    (h : ∀ path text, check path text = .ok () ↔ P text) (v : Json) (path : String) :
    walk check path v = .ok () ↔ ∀ t ∈ texts v, P t := by
  cases v with
  | string text => simp [walk, texts, h]
  | array items => rw [walk, texts, walkItems_eq_ok h items]
  | object fields => rw [walk, texts, walkFields_eq_ok h fields]
  | _ => simp [walk, texts]

theorem walkItems_eq_ok {check : String → String → Except Invalid Unit} {P : String → Prop}
    (h : ∀ path text, check path text = .ok () ↔ P text) (items : List Json) (path : String) (index : ℕ) :
    walkItems check path index items = .ok () ↔ ∀ t ∈ textsOfItems items, P t := by
  cases items with
  | nil => simp [walkItems, textsOfItems]
  | cons item items =>
    rw [walkItems, textsOfItems, List.forall_mem_append, Fallible.check_bind_eq_ok, walk_eq_ok h item,
      walkItems_eq_ok h items]

theorem walkFields_eq_ok {check : String → String → Except Invalid Unit} {P : String → Prop}
    (h : ∀ path text, check path text = .ok () ↔ P text) (fields : List (String × Json)) (path : String) :
    walkFields check path fields = .ok () ↔ ∀ t ∈ textsOfFields fields, P t := by
  cases fields with
  | nil => simp [walkFields, textsOfFields]
  | cons field fields =>
    obtain ⟨key, item⟩ := field
    rw [walkFields, textsOfFields, List.forall_mem_append, Fallible.check_bind_eq_ok, walk_eq_ok h item,
      walkFields_eq_ok h fields]

end

/-- The text is well formed, and every expression of it passes. -/
def Passes (text : String) : Prop := ∃ es, expressions text = .ok es ∧ ∀ e ∈ es, ¬ Refused e

theorem validateBindings_eq_ok {v : Json} : validateBindings v = .ok () ↔ ∀ t ∈ texts v, Passes t :=
  walk_eq_ok (P := Passes) (fun _ _ => checkText_eq_ok) v "$"

/-! ### Resolution -/

theorem lookup_eq_ok {payload : Json} {e field path : String} {value : Json} (hnames : Names e field)
    (hvalue : fieldOf payload field = some value) : lookup payload e path = .ok value := by
  obtain ⟨hbegins, rfl, hne⟩ := hnames
  rw [lookup, if_pos (List.isPrefixOf_iff_prefix.mpr hbegins)]
  simp only [if_neg hne, hvalue]

theorem splitOnce_open (after : List Char) :
    splitOnce CLOSE (OPEN ++ after) = (splitOnce CLOSE after).map fun (inner, rest) => (OPEN ++ inner, rest) := by
  rcases hsplit : splitOnce CLOSE after with _ | ⟨inner, rest⟩ <;>
    simp [splitOnce, OPEN, CLOSE, List.isPrefixOf] at hsplit ⊢ <;> simp [hsplit]

/-- The expressions found: none, or that of the first placeholder and those of the rest. -/
theorem of_expressionsLoop {text : String} {rest : List Char} {es : List String}
    (h : expressionsLoop text rest = .ok es) :
    (splitOnce OPEN rest = none ∧ es = []) ∨
      ∃ before after inner rest' es', splitOnce OPEN rest = some (before, after) ∧
        splitOnce CLOSE after = some (inner, rest') ∧ expressionsLoop text rest' = .ok es' ∧
          es = trim (String.ofList inner) :: es' := by
  rw [expressionsLoop] at h
  split at h
  · next hopen => exact .inl ⟨hopen, (Except.ok.inj h).symm⟩
  · next before after hopen =>
    split at h
    · cases h
    · next inner rest' hclose =>
      dsimp only at h
      split_ifs at h
      rcases hrest : expressionsLoop text rest' with err | es'
      · rw [hrest] at h
        cases h
      · rw [hrest] at h
        exact .inr ⟨before, after, inner, rest', es', hopen, hclose, hrest, (Except.ok.inj h).symm⟩

theorem expressionsLoop_of_none {text : String} {rest : List Char}
    (hopen : splitOnce OPEN rest = none) :
    expressionsLoop text rest = .ok [] := by
  rw [expressionsLoop]
  split
  · rfl
  · simp_all

theorem expressionsLoop_of_some {text e : String} {rest before after inner rest' : List Char}
    (hopen : splitOnce OPEN rest = some (before, after)) (hclose : splitOnce CLOSE after = some (inner, rest'))
    (he : trim (String.ofList inner) = e) (hne : e ≠ "") (hlength : e.utf8ByteSize ≤ MAX_EXPRESSION)
    (hbraces : ¬ ('\x7b' ∈ e.toList ∨ '\x7d' ∈ e.toList)) :
    expressionsLoop text rest = (e :: ·) <$> expressionsLoop text rest' := by
  rw [expressionsLoop]
  split
  · simp_all
  · next before' after' hopen' =>
    obtain ⟨rfl, rfl⟩ := Prod.mk.inj (Option.some.inj (hopen.symm.trans hopen'))
    split
    · simp_all
    · next inner' rest'' hclose' =>
      obtain ⟨rfl, rfl⟩ := Prod.mk.inj (Option.some.inj (hclose.symm.trans hclose'))
      dsimp only
      rw [he, if_neg hne, if_neg (not_lt.mpr hlength), if_neg hbraces]

theorem renderLoop_of_none {toText : Json → String} {payload : Json} {path : String} {rest : List Char}
    (hopen : splitOnce OPEN rest = none) : renderLoop toText payload path rest = .ok rest := by
  rw [renderLoop]
  split
  · rfl
  · simp_all

theorem renderLoop_of_some {toText : Json → String} {payload : Json} {path : String}
    {rest before after inner rest' : List Char} (hopen : splitOnce OPEN rest = some (before, after))
    (hclose : splitOnce CLOSE after = some (inner, rest')) :
    renderLoop toText payload path rest =
      (lookup payload (trim (String.ofList inner)) path >>= fun value =>
        renderLoop toText payload path rest' >>= fun rendered =>
          .ok (before ++ (display toText value).toList ++ rendered)) := by
  have hclose' : splitOnce CLOSE (OPEN ++ after) = some (OPEN ++ inner, rest') := by
    rw [splitOnce_open, hclose]
    rfl
  rw [renderLoop]
  split
  · simp_all
  · next before' after' hopen' =>
    obtain ⟨rfl, rfl⟩ := Prod.mk.inj (Option.some.inj (hopen.symm.trans hopen'))
    split
    · simp_all
    · next inner' rest'' hclose'' =>
      obtain ⟨rfl, rfl⟩ := Prod.mk.inj (Option.some.inj (hclose'.symm.trans hclose''))
      rfl

theorem exists_renderLoop {toText : Json → String} {payload : Json} {path text : String}
    (rest : List Char) {es : List String} (hes : expressionsLoop text rest = .ok es)
    (hlookup : ∀ e ∈ es, ∃ value, lookup payload e path = .ok value) :
    ∃ r, renderLoop toText payload path rest = .ok r := by
  rcases of_expressionsLoop hes with ⟨hopen, -⟩ | ⟨before, after, inner, rest', es', hopen, hclose, hes', rfl⟩
  · exact ⟨rest, renderLoop_of_none hopen⟩
  · obtain ⟨value, hvalue⟩ := hlookup _ List.mem_cons_self
    obtain ⟨rendered, hrendered⟩ :=
      exists_renderLoop rest' hes' fun e he => hlookup e (List.mem_cons_of_mem _ he)
    rw [renderLoop_of_some hopen hclose, hvalue]
    dsimp only [bind, Except.bind]
    rw [hrendered]
    exact ⟨_, rfl⟩
termination_by rest.length
decreasing_by
  have := length_lt_of_splitOnce (by decide) hopen
  have := length_lt_of_splitOnce (by decide) hclose
  omega

theorem exists_resolveText {toText : Json → String} {payload : Json} {path text : String}
    {es : List String}
    (hes : expressions text = .ok es) (hlookup : ∀ e ∈ es, ∃ value, lookup payload e path = .ok value) :
    ∃ r, resolveText toText payload path text = .ok r := by
  obtain ⟨rendered, hrendered⟩ : ∃ r, renderLoop toText payload path text.toList = .ok r :=
    exists_renderLoop text.toList hes hlookup
  have hmixed : ∃ r : Json, (do return .string (String.ofList (← renderLoop toText payload path text.toList)) :
      Except Invalid Json) = .ok r := by
    rw [hrendered]
    exact ⟨_, rfl⟩
  rw [resolveText, hes]
  dsimp only [bind, Except.bind]
  match es with
  | [] => exact ⟨_, rfl⟩
  | [e] =>
    dsimp only
    split_ifs
    · exact hlookup e List.mem_cons_self
    · exact hmixed
  | _ :: _ :: _ => exact hmixed

mutual

theorem exists_resolve {toText : Json → String} {payload : Json} (v : Json) (path : String)
    (h : ∀ t ∈ texts v, ∀ path, ∃ r, resolveText toText payload path t = .ok r) :
    ∃ r, resolve toText payload path v = .ok r := by
  cases v with
  | string text => exact h text (by simp [texts]) path
  | array items =>
    obtain ⟨rs, hrs⟩ := exists_resolveItems items path 0 h
    exact ⟨.array rs, by rw [resolve, hrs]; rfl⟩
  | object fields =>
    obtain ⟨rs, hrs⟩ := exists_resolveFields fields path h
    exact ⟨.object rs, by rw [resolve, hrs]; rfl⟩
  | _ => exact ⟨_, by rw [resolve] <;> simp⟩

theorem exists_resolveItems {toText : Json → String} {payload : Json} (items : List Json)
    (path : String) (index : ℕ)
    (h : ∀ t ∈ textsOfItems items, ∀ path, ∃ r, resolveText toText payload path t = .ok r) :
    ∃ rs, resolveItems toText payload path index items = .ok rs := by
  cases items with
  | nil => exact ⟨[], rfl⟩
  | cons item items =>
    rw [textsOfItems, List.forall_mem_append] at h
    obtain ⟨r, hr⟩ := exists_resolve item (path ++ "[" ++ toString index ++ "]") h.1
    obtain ⟨rs, hrs⟩ := exists_resolveItems items path (index + 1) h.2
    exact ⟨r :: rs, by rw [resolveItems, hr, hrs]; rfl⟩

theorem exists_resolveFields {toText : Json → String} {payload : Json}
    (fields : List (String × Json)) (path : String)
    (h : ∀ t ∈ textsOfFields fields, ∀ path, ∃ r, resolveText toText payload path t = .ok r) :
    ∃ rs, resolveFields toText payload path fields = .ok rs := by
  cases fields with
  | nil => exact ⟨[], rfl⟩
  | cons field fields =>
    obtain ⟨key, item⟩ := field
    rw [textsOfFields, List.forall_mem_append] at h
    obtain ⟨r, hr⟩ := exists_resolve item (path ++ "." ++ key) h.1
    obtain ⟨rs, hrs⟩ := exists_resolveFields fields path h.2
    exact ⟨(key, r) :: rs, by rw [resolveFields, hr, hrs]; rfl⟩

end

/-! ### When validation does what it is for -/

theorem trimStartMatches_of_not_prefix {pat text : List Char} (h : pat.isPrefixOf text = false)
    (n : ℕ) :
    trimStartMatches pat n text = text := by
  cases n with
  | zero => rfl
  | succ n => rw [trimStartMatches, h, if_neg Bool.false_ne_true]

/-- An expression that begins with `event.` and is not refused names a field. -/
theorem exists_names {e : String} (hbegins : "event.".toList <+: e.toList) (hrefused : ¬ Refused e) :
    ∃ field, Names e field := by
  refine ⟨_, hbegins, rfl, fun hblank => hrefused (.inr (.inr ?_))⟩
  obtain ⟨rest, hrest⟩ := hbegins
  have hdrop : e.toList.drop "event.".length = rest := by
    rw [← hrest]
    rfl
  rw [hdrop] at hblank
  -- White space does not begin with `event.`, so nothing more is stripped.
  have hstop : "event.".toList.isPrefixOf rest = false := by
    apply Bool.eq_false_of_not_eq_true
    intro hpre
    obtain ⟨rest', rfl⟩ := List.isPrefixOf_iff_prefix.mp hpre
    exact absurd (trim_eq_empty.mp hblank 'e' (by simp)) (by decide)
  have hlength : e.length = rest.length + 5 + 1 := by
    rw [← String.length_toList, ← hrest, List.length_append, Nat.add_comm]
    rfl
  rw [hlength, trimStartMatches, if_pos (List.isPrefixOf_iff_prefix.mpr ⟨rest, hrest⟩), ← hrest,
    List.drop_left, trimStartMatches_of_not_prefix hstop]
  exact hblank

theorem mem_placeholders {v : Json} {t e : String} {es : List String} (ht : t ∈ texts v)
    (hes : expressions t = .ok es) (he : e ∈ es) : e ∈ placeholders v := by
  apply List.mem_flatMap.mpr
  exact ⟨t, ht, by rw [hes]; exact he⟩

/-- What passes validation: the texts are well formed, and no placeholder is refused. -/
theorem validateBindings_ok_iff {v : Json} :
    validateBindings v = .ok () ↔
      (∀ t ∈ texts v, ∃ es, expressions t = .ok es) ∧ ∀ e ∈ placeholders v, ¬ Refused e := by
  rw [validateBindings_eq_ok]
  constructor
  · intro h
    refine ⟨fun t ht => ?_, fun e he => ?_⟩
    · obtain ⟨es, hes, -⟩ := h t ht
      exact ⟨es, hes⟩
    · obtain ⟨t, ht, hte⟩ := List.mem_flatMap.mp he
      obtain ⟨es, hes, hall⟩ := h t ht
      rw [hes] at hte
      exact hall e hte
  · rintro ⟨hformed, hrefused⟩ t ht
    obtain ⟨es, hes⟩ := hformed t ht
    exact ⟨es, hes, fun e he => hrefused e (mem_placeholders ht hes he)⟩

/-- **Validation does what it is for** exactly when every expression begins with
`event.`, or something else is refused. -/
theorem bindings_sound_iff (toText : Json → String) (v : Json) :
    Sound toText v ↔
      (∀ e ∈ placeholders v, "event.".toList <+: e.toList) ∨ (∃ t ∈ texts v, ∃ err, expressions t = .error err) ∨
        ∃ e ∈ placeholders v, Refused e := by
  constructor
  · intro h
    by_contra hcond
    simp only [not_or, not_forall, not_exists, not_and] at hcond
    obtain ⟨⟨e, he, hbegins⟩, hformed, hrefused⟩ := hcond
    have hok : validateBindings v = .ok () := by
      refine validateBindings_ok_iff.mpr ⟨fun t ht => ?_, hrefused⟩
      rcases hes : expressions t with err | es
      · exact absurd hes (hformed t ht err)
      · exact ⟨es, rfl⟩
    obtain ⟨err, herr⟩ := h.refused e he fun ⟨field, hnames⟩ => hbegins hnames.1
    rw [hok] at herr
    cases herr
  · intro h
    rcases hvalid : validateBindings v with err | u
    · exact ⟨fun hok => absurd (hvalid.symm.trans hok) (by simp), fun _ _ _ => ⟨err, hvalid⟩⟩
    obtain ⟨hformed, hrefused⟩ := validateBindings_ok_iff.mp hvalid
    have hnames : ∀ e ∈ placeholders v, ∃ field, Names e field := by
      intro e he
      rcases h with h | ⟨t, ht, err, herr⟩ | ⟨e', he', hrefused'⟩
      · exact exists_names (h e he) (hrefused e he)
      · obtain ⟨es, hes⟩ := hformed t ht
        rw [hes] at herr
        cases herr
      · exact absurd hrefused' (hrefused e' he')
    refine ⟨fun _ payload hcarries => exists_resolve v "$" fun t ht path => ?_, fun e he hno => ?_⟩
    · obtain ⟨es, hes⟩ := hformed t ht
      apply exists_resolveText hes
      intro e he
      have he := mem_placeholders ht hes he
      obtain ⟨field, hfield⟩ := hnames e he
      obtain ⟨value, hvalue⟩ := Option.isSome_iff_exists.mp (hcarries e he field hfield)
      exact ⟨value, lookup_eq_ok hfield hvalue⟩
    · exact absurd (hnames e he) hno

/-- The placeholder `{{eventual}}` passes validation and never resolves. -/
theorem eventual : ¬ Sound (fun _ => "") (.string "\x7b\x7beventual\x7d\x7d") := by
  intro h
  have hes : expressions "\x7b\x7beventual\x7d\x7d" = .ok ["eventual"] := by
    have hopen : splitOnce OPEN "\x7b\x7beventual\x7d\x7d".toList = some ([], "eventual\x7d\x7d".toList) := by decide
    have hclose : splitOnce CLOSE "eventual\x7d\x7d".toList = some ("eventual".toList, []) := by decide
    have htrim : trim (String.ofList "eventual".toList) = "eventual" := by decide
    rw [expressions, expressionsLoop_of_some hopen hclose htrim (by decide) (by decide) (by decide),
      expressionsLoop_of_none (by decide)]
    rfl
  have hmem : "eventual" ∈ placeholders (.string "\x7b\x7beventual\x7d\x7d") := by
    simp [placeholders, texts, hes, Except.toOption]
  obtain ⟨err, herr⟩ := h.refused _ hmem fun ⟨field, hnames⟩ => absurd hnames.1 (by decide)
  have hok : validateBindings (.string "\x7b\x7beventual\x7d\x7d") = .ok () := by
    apply validateBindings_eq_ok.mpr
    intro t ht
    obtain rfl := List.mem_singleton.mp ht
    refine ⟨_, hes, fun e he => ?_⟩
    obtain rfl := List.mem_singleton.mp he
    exact checkExpression_eq_ok.mp (show checkExpression "$" "eventual" = .ok () by rfl)
  rw [hok] at herr
  cases herr

end Omnion.Automation
